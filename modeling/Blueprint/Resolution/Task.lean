import Blueprint.Resolution.Scope
/-!
Tasks: a resolution that has not started or that rests somewhere, as data. A task says all that is
still to be done for one value. The layers around a task say what happens with its value; together
they are the whole resolution, opened at the place where it is running.
-/

namespace Blueprint

/-- A dereference of an entry that has to be initialized, seen from the scope of the reference. -/
structure Fetch where
  type : EntityType
  name : String
  scope : Scope
  /-- what the entry held when the fetch began -/
  payload : Payload

namespace Fetch

def key (fetch : Fetch) : Key := Node.keyOf fetch.type fetch.name

/-- The scope in which the entry is initialized. -/
def inner (fetch : Fetch) : Scope := fetch.scope.dereferencing fetch.key

end Fetch

/-- How far a record has come: values of earlier stages, names of the fields of the present one,
slots of later ones. -/
structure Stage where
  type : EntityType
  scope : Scope
  done : List (String × Value)
  names : List String
  later : List (List (String × Slot))

/-- What happens with the value of a task that stands alone in its place. -/
inductive Frame where
  /-- an optional field is there -/
  | present
  /-- a union has this variant -/
  | tagged (tag : String)
  /-- pairs become a map, at the path of the field -/
  | folding (path : Path)
  /-- an entry is initialized -/
  | fetching (fetch : Fetch)
  /-- the fields of one stage of a record are there -/
  | stage (stage : Stage)

/-- One of several computations that run side by side and are looked at in order. -/
inductive Part (α : Type) where
  | done (value : Value)
  | running (task : α)

/-- Elements of a collection, by position, of which at most `limit` run at a time. -/
structure Fan (α : Type) where
  /-- the number by which its strands are known -/
  id : Nat
  limit : Nat
  size : Nat
  /-- not started, in order -/
  queued : List (Nat × α)
  /-- started, the one that was added or looked at last in front -/
  running : List (Nat × α)
  /-- finished, in order of completion -/
  done : List (Nat × Value)

inductive Task where
  /-- resolve a node -/
  | node (node : Node) (scope : Scope)
  /-- resolve a shell -/
  | shell (shell : Shell) (scope : Scope)
  /-- resolve the present variant of a union -/
  | variant (tag : String) (shell : Shell) (scope : Scope)
  /-- resolve a field of an entity -/
  | field (entity name : String) (slot : Slot) (scope : Scope)
  /-- sleep until a time and go on -/
  | delay (due timer : Nat) (next : Task)
  /-- never go on -/
  | forever
  /-- wait in the queue of an entry -/
  | waiting (fetch : Fetch) (ticket : Nat)
  /-- a task whose value is used by a frame -/
  | inside (frame : Frame) (task : Task)
  /-- computations that run side by side; their values form a list -/
  | join (parts : List (Part Task))
  /-- a bounded collection; its values form a list -/
  | fan (fan : Fan Task)

instance : Inhabited Task := ⟨.forever⟩

/-- What was done since a collection last had fewer elements running than it may: how many were
running then, how many have been looked at, how many of these were woken meanwhile. -/
structure Tally where
  total : Nat
  polled : Nat
  yielded : Nat
  deriving DecidableEq, Repr

/-- One level around the place where a resolution runs. -/
inductive Layer where
  | inside (frame : Frame)
  | joining (before after : List (Part Task))
  | fanning (fan : Fan Task) (position : Nat) (tally : Tally)

namespace Layer

/-- The strand that a layer makes of what lies in it. -/
def strand? : Layer → Option Strand
  | fanning fan position _ => some (.element fan.id position)
  | _ => none

/-- The strands around a place in an operation, innermost first. -/
def strands (layers : List Layer) (operation : Nat) : List Strand :=
  layers.filterMap strand? ++ [.operation operation]

end Layer

namespace Fan

variable {α : Type}

/-- A collection none of whose elements has started; no limit is below one. -/
def ofTasks (id limit : Nat) (tasks : List α) : Fan α :=
  { id, limit := max limit 1, size := tasks.length
    queued := tasks.mapIdx fun position task => (position, task)
    running := [], done := [] }

/-- The elements to be started now. -/
def starting (fan : Fan α) : List (Nat × α) :=
  fan.queued.take (fan.limit - fan.running.length)

/-- Start elements in order while there is room. -/
def refill (fan : Fan α) : Fan α :=
  { fan with
    queued := fan.queued.drop (fan.limit - fan.running.length)
    running := fan.starting.reverse ++ fan.running }

/-- The values in the order of their elements. -/
def values (fan : Fan α) : List Value :=
  (List.range fan.size).filterMap fun position => OrderedMap.get? fan.done position

end Fan

namespace Part

variable {α : Type}

def value? : Part α → Option Value
  | done value => some value
  | running _ => none

end Part

namespace EntityType

/-- The fields of a record in the order of resolution, stage by stage. -/
def plan {α : Type} (type : EntityType) (fields : List (String × α)) : List (List (String × α)) :=
  match type.form with
  | .record form =>
    form.stages.map fun names => names.filterMap fun name =>
      (OrderedMap.get? fields name).map fun content => (name, content)
  | .union _ => []

/-- The name of an entity in messages about a missing field. -/
def entityName (type : EntityType) : String :=
  (type.recordForm?.map RecordForm.entityName).getD type.shortName

end EntityType

end Blueprint
