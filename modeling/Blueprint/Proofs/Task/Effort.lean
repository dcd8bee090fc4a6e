import Mathlib.Algebra.GroupWithZero.Nat
import Blueprint.Proofs.Task.Whole
/-! How much a task can still do by itself. The initialization of entries is not counted; it is paid for
when an entry is opened. Whatever does more than look at a task that waits makes its effort less. -/

namespace Blueprint

mutual

def Node.effort : Node → Nat
  | .literal _ => 2
  | .reference _ _ => 4
  | .nested shell => shell.effort + 1

def Shell.effort : Shell → Nat
  | .record type fields =>
    4 + ((type.plan (fieldEfforts fields)).map fun stage =>
      4 + (stage.map fun field => field.2 + 1).sum).sum
  | .variant _ _ shell => shell.effort + 3
  | .counted _ _ _ _ => 4
  | .stalled _ _ => 1
  | .delayed _ node _ => node.effort + 2

def Slot.effort : Slot → Nat
  | .required none => 0
  | .required (some node) => node.effort
  | .optional none => 2
  | .optional (some node) => node.effort + 1
  | .repeated nodes => 3 + itemEfforts nodes
  | .keyed pairs => 4 + pairEfforts pairs

def fieldEfforts : List (String × Slot) → List (String × Nat)
  | [] => []
  | (name, slot) :: rest => (name, slot.effort) :: fieldEfforts rest

def itemEfforts : List Node → Nat
  | [] => 0
  | node :: rest => node.effort + 1 + itemEfforts rest

def pairEfforts : List (Node × Node) → Nat
  | [] => 0
  | (key, value) :: rest => key.effort + value.effort + 4 + pairEfforts rest

end

/-- The effort for some stages of a record. -/
def stagesEffort (stages : List (List (String × Slot))) : Nat :=
  (stages.map fun fields => 4 + (fields.map fun field => field.2.effort + 1).sum).sum

theorem fieldEfforts_eq_map (fields : List (String × Slot)) :
    fieldEfforts fields = fields.map fun field => (field.1, field.2.effort) := by
  induction fields with
  | nil => simp [fieldEfforts]
  | cons field rest ih => simp [fieldEfforts, ih]

theorem itemEfforts_eq_sum (nodes : List Node) :
    itemEfforts nodes = (nodes.map fun node => node.effort + 1).sum := by
  induction nodes with
  | nil => simp [itemEfforts]
  | cons node rest ih => simp [itemEfforts, ih]

theorem pairEfforts_eq_sum (pairs : List (Node × Node)) :
    pairEfforts pairs = (pairs.map fun pair => pair.1.effort + pair.2.effort + 4).sum := by
  induction pairs with
  | nil => simp [pairEfforts]
  | cons pair rest ih => simp [pairEfforts, ih]

theorem Shell.effort_record (type : EntityType) (fields : List (String × Slot)) :
    (Shell.record type fields).effort = 4 + stagesEffort (type.plan fields) := by
  rw [Shell.effort, fieldEfforts_eq_map, EntityType.plan_map, stagesEffort]
  simp only [List.map_map, Function.comp_def]

def Frame.effort : Frame → Nat
  | .stage record => 1 + stagesEffort record.later
  | .present | .tagged _ | .folding _ | .fetching _ => 1

mutual

def Task.effort : Task → Nat
  | .node node _ => node.effort
  | .shell shell _ => shell.effort
  | .variant _ shell _ => shell.effort + 2
  | .field _ _ slot _ => slot.effort + 1
  | .delay _ _ next => next.effort + 1
  | .forever => 0
  | .waiting _ _ => 3
  | .inside frame task => frame.effort + task.effort
  | .join parts => 3 + effortOfParts parts
  | .fan ⟨_, _, _, queued, running, _⟩ =>
    3 + (effortOfElements queued + queued.length) + effortOfElements running

def effortOfParts : List (Part Task) → Nat
  | [] => 0
  | .done _ :: rest => effortOfParts rest
  | .running task :: rest => task.effort + effortOfParts rest

def effortOfElements : List (Nat × Task) → Nat
  | [] => 0
  | (_, task) :: rest => task.effort + effortOfElements rest

end

section Lists

@[simp] theorem effortOfParts_nil : effortOfParts [] = 0 := by simp [effortOfParts]

@[simp] theorem effortOfParts_done (value : Value) (rest : List (Part Task)) :
    effortOfParts (.done value :: rest) = effortOfParts rest := by simp [effortOfParts]

@[simp] theorem effortOfParts_running (task : Task) (rest : List (Part Task)) :
    effortOfParts (.running task :: rest) = task.effort + effortOfParts rest := by simp [effortOfParts]

@[simp] theorem effortOfParts_append (first second : List (Part Task)) :
    effortOfParts (first ++ second) = effortOfParts first + effortOfParts second := by
  induction first with
  | nil => simp
  | cons part rest ih => cases part <;> simp [ih, Nat.add_assoc]

@[simp] theorem effortOfElements_nil : effortOfElements [] = 0 := by simp [effortOfElements]

@[simp] theorem effortOfElements_cons (element : Nat × Task) (rest : List (Nat × Task)) :
    effortOfElements (element :: rest) = element.2.effort + effortOfElements rest := by
  simp [effortOfElements]

theorem effortOfElements_eq_sum (elements : List (Nat × Task)) :
    effortOfElements elements = (elements.map fun element => element.2.effort).sum := by
  induction elements with
  | nil => simp
  | cons element rest ih => simp [ih]

theorem effortOfElements_append (first second : List (Nat × Task)) :
    effortOfElements (first ++ second) = effortOfElements first + effortOfElements second := by
  simp [effortOfElements_eq_sum]

theorem effortOfElements_perm {first second : List (Nat × Task)} (same : first.Perm second) :
    effortOfElements first = effortOfElements second := by
  rw [effortOfElements_eq_sum, effortOfElements_eq_sum]
  exact (same.map _).sum_eq

end Lists

namespace Task

@[simp] theorem effort_node (node : Node) (scope : Scope) : (Task.node node scope).effort = node.effort := rfl

@[simp] theorem effort_shell (shell : Shell) (scope : Scope) :
    (Task.shell shell scope).effort = shell.effort := rfl

@[simp] theorem effort_variant (tag : String) (shell : Shell) (scope : Scope) :
    (Task.variant tag shell scope).effort = shell.effort + 2 := rfl

@[simp] theorem effort_field (entity name : String) (slot : Slot) (scope : Scope) :
    (Task.field entity name slot scope).effort = slot.effort + 1 := rfl

@[simp] theorem effort_delay (due timer : Nat) (next : Task) :
    (Task.delay due timer next).effort = next.effort + 1 := rfl

@[simp] theorem effort_forever : Task.forever.effort = 0 := rfl

@[simp] theorem effort_waiting (fetch : Fetch) (ticket : Nat) : (Task.waiting fetch ticket).effort = 3 := rfl

@[simp] theorem effort_inside (frame : Frame) (task : Task) :
    (Task.inside frame task).effort = frame.effort + task.effort := rfl

@[simp] theorem effort_join (parts : List (Part Task)) :
    (Task.join parts).effort = 3 + effortOfParts parts := rfl

@[simp] theorem effort_fan (fan : Fan Task) :
    (Task.fan fan).effort =
      3 + (effortOfElements fan.queued + fan.queued.length) + effortOfElements fan.running := rfl

end Task

namespace Layer

/-- The effort of a layer without that of the task inside. -/
def effort : Layer → Nat
  | inside frame => frame.effort
  | joining before after => 3 + (effortOfParts before + effortOfParts after)
  | fanning fan _ _ =>
    3 + (effortOfElements fan.queued + fan.queued.length) + effortOfElements fan.running

theorem effort_around (layer : Layer) (task : Task) :
    (layer.around task).effort = task.effort + layer.effort := by
  cases layer with
  | inside frame => simp [around, effort, Nat.add_comm]
  | joining before after => simp [around, effort]; omega
  | fanning fan position tally => simp [around, effort]; omega

theorem effort_pos (layer : Layer) : 0 < layer.effort := by
  cases layer with
  | inside frame =>
    cases frame with
    | stage record => simp only [effort, Frame.effort]; omega
    | _ => simp [effort, Frame.effort]
  | joining before after => simp only [effort]; omega
  | fanning fan position tally => simp only [effort]; omega

end Layer

theorem effort_surround (layers : List Layer) (task : Task) :
    (surround layers task).effort = task.effort + (layers.map Layer.effort).sum := by
  induction layers generalizing task with
  | nil => simp [surround]
  | cons layer outer ih => rw [surround, ih, layer.effort_around, List.map_cons, List.sum_cons, Nat.add_assoc]

end Blueprint
