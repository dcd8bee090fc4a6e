import Blueprint.Node
import Blueprint.Strand
import Blueprint.Registry.Error
import Blueprint.Registry.WaitGraph
/-!
The registry: values under typed keys, each key written once. An entry is complete from the start,
or deferred: it then holds a payload from which its value is made when it is first fetched. At most
one fetch at a time makes the value; the others queue at the gate of the entry and get their turn
only if that one gives up.
-/

namespace Blueprint

/-- A stored value with the type it was stored as. -/
structure Stored where
  type : TypeName
  value : Value
  deriving DecidableEq, Repr

/-- What a deferred entry keeps for its initialization. -/
inductive Payload where
  | text (content : String)
  | node (type : TypeName) (node : Node)

/-- A fetch in the queue of an entry, by a number of its own, and the strands to wake for it. -/
structure Waiter where
  ticket : Nat
  strands : List Strand
  deriving DecidableEq, Repr

/-- Who may initialize an entry: nobody yet, the fetch that is doing so, or the waiter whose turn
has come. -/
inductive Gate where
  | idle
  | held
  | granted (ticket : Nat)
  deriving DecidableEq, Repr

structure Entry where
  value : Option Stored
  payload : Option Payload
  gate : Gate
  queue : List Waiter

structure Registry where
  /-- in order of registration -/
  entries : List (Key × Entry)
  waits : WaitGraph
  /-- fetches that found the value there -/
  hits : Nat
  /-- initializations started -/
  initializations : Nat

/-- Figures that describe a registry. -/
structure RegistryStats where
  entries : Nat
  completed : Nat
  hits : Nat
  initializations : Nat
  waiting : Nat
  deriving DecidableEq, Repr

namespace Entry

/-- An entry with a value. -/
def complete (stored : Stored) : Entry := ⟨some stored, none, .idle, []⟩

/-- An entry whose value is still to be made. -/
def deferred (payload : Payload) : Entry := ⟨none, some payload, .idle, []⟩

def isDeferred (entry : Entry) : Bool := entry.payload.isSome

def isComplete (entry : Entry) : Bool := entry.value.isSome

end Entry

namespace Registry

def empty : Registry := ⟨[], .empty, 0, 0⟩

instance : Inhabited Registry := ⟨empty⟩

def entry? (registry : Registry) (key : Key) : Option Entry :=
  OrderedMap.get? registry.entries key

def contains (registry : Registry) (key : Key) : Bool :=
  (registry.entry? key).isSome

def size (registry : Registry) : Nat :=
  registry.entries.length

/-- Put a new entry under a key that is free. -/
def register (registry : Registry) (key : Key) (entry : Entry) : Except RegistryError Registry :=
  if registry.contains key then .error (.about .alreadyRegistered key)
  else .ok { registry with entries := registry.entries ++ [(key, entry)] }

/-- A stored value as one of a type. -/
def asType (key : Key) (type : TypeName) (stored : Stored) : Except RegistryError Value :=
  if stored.type = type then .ok stored.value else .error (.about .typeMismatch key)

/-- The value under a key, if the entry is complete. -/
def get? (registry : Registry) (type : TypeName) (key : Key) : Option Value := do
  let entry ← registry.entry? key
  let stored ← entry.value
  (asType key type stored).toOption

/-- Change the entry under a key. -/
def modify (registry : Registry) (key : Key) (change : Entry → Entry) : Registry :=
  { registry with
    entries := registry.entries.map fun (k, entry) => (k, if k = key then change entry else entry) }

/-- How a fetch begins. -/
inductive Arrival where
  | refused (error : RegistryError)
  | found (value : Value)
  /-- the entry is to be initialized by this fetch -/
  | turn (payload : Payload)
  /-- another fetch has the turn -/
  | queued (payload : Payload)

/-- The start of an initialization: the gate is held and the start is counted. -/
def beginTurn (registry : Registry) (key : Key) : Registry :=
  { registry.modify key (fun entry => { entry with gate := .held }) with
    initializations := registry.initializations + 1 }

/-- The wait of an owner, if the fetch is made for one, added to the graph. -/
def link (registry : Registry) (owner : Option Key) (key : Key) :
    Except RegistryError Registry :=
  match owner with
  | none => .ok registry
  | some owner =>
    match registry.waits.add owner key with
    | .error chain => .error (.cycle (chain.map Key.text))
    | .ok waits => .ok { registry with waits }

/-- The wait of an owner, if any, is over. -/
def unlink (registry : Registry) (owner : Option Key) (key : Key) : Registry :=
  match owner with
  | none => registry
  | some owner => { registry with waits := registry.waits.remove owner key }

/-- A fetch of a value of a type, made for an owner that waits for it. A complete entry answers at
once. Otherwise the wait is recorded, unless it would close a cycle, and the fetch initializes the
entry or joins its queue. -/
def arrive (registry : Registry) (type : TypeName) (key : Key) (owner : Option Key)
    (waiter : Waiter) : Arrival × Registry :=
  if key.type ≠ type then (.refused (.about .typeMismatch key), registry)
  else
    match registry.entry? key with
    | none => (.refused (.about .notRegistered key), registry)
    | some { value := some stored, .. } =>
      let counted := { registry with hits := registry.hits + 1 }
      match asType key type stored with
      | .ok value => (.found value, counted)
      | .error error => (.refused error, counted)
    | some { value := none, payload := none, .. } =>
      (.refused (.about .notRegistered key), registry)
    | some { value := none, payload := some payload, gate, .. } =>
      match registry.link owner key with
      | .error error => (.refused error, registry)
      | .ok linked =>
        match gate with
        | .idle => (.turn payload, linked.beginTurn key)
        | .held | .granted _ =>
          (.queued payload,
            linked.modify key fun entry => { entry with queue := entry.queue ++ [waiter] })

/-- How a fetch in a queue goes on. -/
inductive Resumption where
  | waiting
  | found (value : Value)
  | refused (error : RegistryError)
  /-- the entry is to be initialized by this fetch -/
  | turn

/-- A waiter looks again: the value may be there, or its turn may have come. -/
def resume (registry : Registry) (type : TypeName) (key : Key) (ticket : Nat) :
    Resumption × Registry :=
  match registry.entry? key with
  | none => (.waiting, registry)
  | some { value := some stored, .. } =>
    match asType key type stored with
    | .ok value => (.found value, registry)
    | .error error => (.refused error, registry)
  | some { value := none, gate, .. } =>
    if gate = .granted ticket then (.turn, registry.beginTurn key) else (.waiting, registry)

/-- The value of an entry is made: its payload goes, and all waiters are to be woken in order. -/
def settle (registry : Registry) (key : Key) (stored : Stored) : List Waiter × Registry :=
  (((registry.entry? key).map Entry.queue).getD [],
    registry.modify key fun _ => Entry.complete stored)

/-- The fetch that had the turn gives up. The turn goes to the first waiter, who is to be woken. -/
def release (registry : Registry) (key : Key) : List Waiter × Registry :=
  match ((registry.entry? key).map Entry.queue).getD [] with
  | [] => ([], registry.modify key fun entry => { entry with gate := .idle })
  | next :: rest =>
    ([next], registry.modify key fun entry =>
      { entry with gate := .granted next.ticket, queue := rest })

/-- A waiter goes away. If its turn has come already, the turn is passed on. -/
def withdraw (registry : Registry) (key : Key) (ticket : Nat) : List Waiter × Registry :=
  if (registry.entry? key).any fun entry => entry.gate = .granted ticket then
    registry.release key
  else
    ([], registry.modify key fun entry =>
      { entry with queue := entry.queue.filter fun waiter => waiter.ticket ≠ ticket })

def completed (registry : Registry) : Nat :=
  (registry.entries.filter fun (_, entry) => entry.isComplete).length

def stats (registry : Registry) : RegistryStats :=
  { entries := registry.size
    completed := registry.completed
    hits := registry.hits
    initializations := registry.initializations
    waiting := registry.waits.waiting }

/-- The texts of all keys in increasing order. -/
def keyTexts (registry : Registry) : List String :=
  (registry.entries.map fun (key, _) => key.text).mergeSort fun a b => !(b < a)

def debug (registry : Registry) : String :=
  Text.bracedOpen "Registry" [("entries", toString registry.size)]

end Registry

end Blueprint
