import Blueprint.Proofs.Task.Every
/-! Trees without a shell that never completes, and tasks in which nothing that is done on behalf of some
entries can come to stand still for good. -/

namespace Blueprint

mutual

/-- No shell in the tree of a node is stalled. -/
def Node.Flows : Node → Prop
  | .literal _ | .reference _ _ => True
  | .nested shell => shell.Flows

def Shell.Flows : Shell → Prop
  | .record _ fields => FieldsFlow fields
  | .variant _ _ shell => shell.Flows
  | .counted _ _ _ _ => True
  | .stalled _ _ => False
  | .delayed _ node _ => node.Flows

def Slot.Flows : Slot → Prop
  | .required none | .optional none => True
  | .required (some node) | .optional (some node) => node.Flows
  | .repeated nodes => ItemsFlow nodes
  | .keyed pairs => PairsFlow pairs

def FieldsFlow : List (String × Slot) → Prop
  | [] => True
  | (_, slot) :: rest => slot.Flows ∧ FieldsFlow rest

def ItemsFlow : List Node → Prop
  | [] => True
  | node :: rest => node.Flows ∧ ItemsFlow rest

def PairsFlow : List (Node × Node) → Prop
  | [] => True
  | (key, value) :: rest => key.Flows ∧ value.Flows ∧ PairsFlow rest

end

theorem fieldsFlow_iff {fields : List (String × Slot)} :
    FieldsFlow fields ↔ ∀ field ∈ fields, field.2.Flows := by
  induction fields with
  | nil => simp [FieldsFlow]
  | cons field rest ih => simp [FieldsFlow, ih]

theorem itemsFlow_iff {nodes : List Node} : ItemsFlow nodes ↔ ∀ node ∈ nodes, node.Flows := by
  induction nodes with
  | nil => simp [ItemsFlow]
  | cons node rest ih => simp [ItemsFlow, ih]

theorem pairsFlow_iff {pairs : List (Node × Node)} :
    PairsFlow pairs ↔ ∀ pair ∈ pairs, pair.1.Flows ∧ pair.2.Flows := by
  induction pairs with
  | nil => simp [PairsFlow]
  | cons pair rest ih => simp [PairsFlow, ih, and_assoc]

/-- A simple task that is done on behalf of an owner that should flow does. -/
def flowing (free : Option Key → Prop) : Demand
  | owner, .node node _ => free owner → node.Flows
  | owner, .shell shell _ | owner, .variant _ shell _ => free owner → shell.Flows
  | owner, .field _ _ slot _ => free owner → slot.Flows
  | owner, .forever => ¬ free owner
  | _, _ => True

/-- If fewer entries should flow, less is asked. -/
theorem flowing_mono {free fewer : Option Key → Prop} (among : ∀ owner, fewer owner → free owner)
    {owner : Option Key} {task : Task} (known : flowing free owner task) : flowing fewer owner task := by
  cases task with
  | node | shell | variant | field => exact fun wanted => known (among owner wanted)
  | forever => exact fun wanted => known (among owner wanted)
  | delay | waiting | inside | join | fan => trivial

/-- Whatever the task does on behalf of an owner that should flow does. -/
def Task.Flows (free : Option Key → Prop) (owner : Option Key) (task : Task) : Prop :=
  task.Every (flowing free) owner

end Blueprint
