import Blueprint.Value
import Blueprint.Key
/-!
Nodes: the tree that is resolved into a value. A node is a value already known, a reference to a
registry entry, or a shell, which is an entity some of whose parts are still nodes.
-/

namespace Blueprint

mutual

inductive Node where
  | literal (value : Value)
  | reference (type : EntityType) (name : String)
  | nested (shell : Shell)

/-- What stands for an entity before it is resolved. The last three forms are instruments: they
take time and count how often they are started. -/
inductive Shell where
  /-- a record with one slot for each field, in declaration order -/
  | record (type : EntityType) (fields : List (String × Slot))
  /-- the present variant of a union -/
  | variant (union : EntityType) (tag : String) (shell : Shell)
  /-- gives the value after a delay; every start adds one to a counter -/
  | counted (type : EntityType) (value : Value) (delay counter : Nat)
  /-- never completes; every start adds one to a counter -/
  | stalled (type : EntityType) (counter : Nat)
  /-- waits and then resolves the inner node -/
  | delayed (type : EntityType) (node : Node) (delay : Nat)

/-- What a shell holds for one field. -/
inductive Slot where
  | required (node : Option Node)
  | optional (node : Option Node)
  | repeated (nodes : List Node)
  | keyed (pairs : List (Node × Node))

end

instance : Inhabited Node := ⟨.literal .absent⟩

namespace Node

/-- The registry key that a reference to a type and a name addresses. -/
def keyOf (type : EntityType) (name : String) : Key :=
  ⟨type.typeName, name⟩

def literal? : Node → Option Value
  | literal value => some value
  | _ => none

def reference? : Node → Option Key
  | reference type name => some (keyOf type name)
  | _ => none

def isLiteral (node : Node) : Bool :=
  node.literal?.isSome

def isNested : Node → Bool
  | nested _ => true
  | _ => false

end Node

namespace Slot

/-- The slot of a field that nothing has been put into. -/
def blank : FieldShape → Slot
  | .required _ => required none
  | .optional _ => optional none
  | .repeated _ => repeated []
  | .keyed _ _ => keyed []

end Slot

namespace Shell

/-- The shell of a record type with all slots unset. -/
def blank (type : EntityType) : Shell :=
  match type.form with
  | .record form => record type (form.fields.map fun field => (field.name, Slot.blank field.shape))
  | .union _ => record type []

/-- The name a shell goes by: its type, for a union that of the present variant. -/
def describe : Shell → String
  | record type _ | counted type _ _ _ | stalled type _ | delayed type _ _ => type.shortName
  | variant _ _ shell => describe shell

end Shell

namespace EntityType

/-- What a record becomes when its fields have values: a label its text, a sum the total of its
terms as a 64-bit word, any other record an entity with the fields in declaration order. -/
def assemble (type : EntityType) (fields : List (String × Value)) : Value :=
  let valueOf := fun name => (OrderedMap.get? fields name).getD .absent
  match type with
  | .text => valueOf "text"
  | .number => .number (total (valueOf "terms"))
  | _ =>
    match type.form with
    | .record form => .record type (form.fields.map fun field => (field.name, valueOf field.name))
    | .union _ => .record type fields
where
  /-- The sum of the numbers in a list. -/
  total : Value → UInt64
    | .list items => items.foldl (fun sum item => sum + amount item) 0
    | _ => 0
  amount : Value → UInt64
    | .number n => n
    | _ => 0

end EntityType

end Blueprint
