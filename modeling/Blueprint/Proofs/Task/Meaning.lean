import Mathlib.Data.List.Range
import Blueprint.Proofs.Task.Stakes
/-! What a task that has come some way will have as its value, given the meaning of keys. Steps of a
resolution keep this value, so it is that of the node with which the resolution began. -/

namespace Blueprint

/-- A meaning of keys. -/
abbrev Lookup := Key → Option Value

/-- The items of a list. -/
def Value.items : Value → List Value
  | list items => items
  | _ => []

/-- The list of the values of a collection by position, if none is missing. -/
def gathered (size : Nat) (entries : List (Nat × Option Value)) : Option Value :=
  (collect ((List.range size).map fun position => (OrderedMap.get? entries position).join)).map .list

/-- What a frame makes of the value of the task inside. -/
def Frame.value? (lookup : Lookup) (frame : Frame) (inner : Option Value) : Option Value :=
  match frame with
  | .present => inner.map .present
  | .tagged tag => inner.map (.variant tag)
  | .folding _ => inner.map fun value => Value.ofPairs (Machine.pairs value)
  | .fetching _ => inner
  | .stage record => inner.bind fun value =>
    (collect (record.later.flatten.map fun field => named (field.1, field.2.evaluate lookup))).map
      fun rest => record.type.assemble (record.done ++ record.names.zip value.items ++ rest)

mutual

/-- The value that a task will have. -/
def Task.value? (lookup : Lookup) : Task → Option Value
  | .node node _ => node.evaluate lookup
  | .shell shell _ => shell.evaluate lookup
  | .variant tag shell _ => (shell.evaluate lookup).map (.variant tag)
  | .field _ _ slot _ => slot.evaluate lookup
  | .delay _ _ next => next.value? lookup
  | .forever => none
  | .waiting fetch _ => lookup fetch.key
  | .inside frame task => frame.value? lookup (task.value? lookup)
  | .join parts => (collect (valuesOfParts lookup parts)).map .list
  | .fan ⟨_, _, size, queued, running, done⟩ =>
    gathered size (valuesOfElements lookup queued ++ valuesOfElements lookup running ++
      done.map fun item => (item.1, some item.2))

def valuesOfParts (lookup : Lookup) : List (Part Task) → List (Option Value)
  | [] => []
  | .done value :: rest => some value :: valuesOfParts lookup rest
  | .running task :: rest => task.value? lookup :: valuesOfParts lookup rest

def valuesOfElements (lookup : Lookup) : List (Nat × Task) → List (Nat × Option Value)
  | [] => []
  | (position, task) :: rest => (position, task.value? lookup) :: valuesOfElements lookup rest

end

/-- The positions of the elements of a collection, queued, running and done. -/
def Fan.positions {α : Type} (fan : Fan α) : List Nat :=
  fan.queued.map (·.1) ++ fan.running.map (·.1) ++ fan.done.map (·.1)

/-- A task as it stands before anything was done for it: a node or several. -/
def Task.Unstarted : Task → Prop
  | .node _ _ => True
  | .join parts => ∀ part ∈ parts, ∃ node scope, part = .running (.node node scope)
  | _ => False

/-- Every position of a collection is taken once, at least one element may run, and those that are queued
have not started. -/
structure Fan.Proper (fan : Fan Task) : Prop where
  positive : 1 ≤ fan.limit
  whole : fan.positions.Perm (List.range fan.size)
  unstarted : ∀ element ∈ fan.queued, element.2.Unstarted

mutual

/-- Collections are in order, what waits for a timer has not started, and under every meaning in a class an
initialization makes no other value than the one its key means. -/
def Task.Sound (meanings : Lookup → Prop) : Task → Prop
  | .delay _ _ next => next.Unstarted
  | .inside frame task =>
    (∀ fetch, frame = .fetching fetch → ∀ lookup, meanings lookup →
      Below (task.value? lookup) (lookup fetch.key)) ∧ task.Sound meanings
  | .join parts => SoundParts meanings parts
  | .fan ⟨id, limit, size, queued, running, done⟩ =>
    Fan.Proper ⟨id, limit, size, queued, running, done⟩ ∧
      SoundElements meanings queued ∧ SoundElements meanings running
  | .node _ _ | .shell _ _ | .variant _ _ _ | .field _ _ _ _ | .forever | .waiting _ _ => True

def SoundParts (meanings : Lookup → Prop) : List (Part Task) → Prop
  | [] => True
  | .done _ :: rest => SoundParts meanings rest
  | .running task :: rest => task.Sound meanings ∧ SoundParts meanings rest

def SoundElements (meanings : Lookup → Prop) : List (Nat × Task) → Prop
  | [] => True
  | (_, task) :: rest => task.Sound meanings ∧ SoundElements meanings rest

end

section Lists

variable (lookup : Lookup) (meanings : Lookup → Prop)

@[simp] theorem valuesOfParts_nil : valuesOfParts lookup [] = [] := by simp [valuesOfParts]

@[simp] theorem valuesOfParts_done (value : Value) (rest : List (Part Task)) :
    valuesOfParts lookup (.done value :: rest) = some value :: valuesOfParts lookup rest := by
  simp [valuesOfParts]

@[simp] theorem valuesOfParts_running (task : Task) (rest : List (Part Task)) :
    valuesOfParts lookup (.running task :: rest) = task.value? lookup :: valuesOfParts lookup rest := by
  simp [valuesOfParts]

@[simp] theorem valuesOfParts_append (first second : List (Part Task)) :
    valuesOfParts lookup (first ++ second) =
      valuesOfParts lookup first ++ valuesOfParts lookup second := by
  induction first with
  | nil => simp
  | cons part rest ih => cases part <;> simp [ih]

theorem valuesOfElements_eq_map (elements : List (Nat × Task)) :
    valuesOfElements lookup elements =
      elements.map fun element => (element.1, element.2.value? lookup) := by
  induction elements with
  | nil => simp [valuesOfElements]
  | cons element rest ih => simp [valuesOfElements, ih]

@[simp] theorem soundParts_nil : SoundParts meanings [] := by simp [SoundParts]

@[simp] theorem soundParts_done (value : Value) (rest : List (Part Task)) :
    SoundParts meanings (.done value :: rest) ↔ SoundParts meanings rest := by simp [SoundParts]

@[simp] theorem soundParts_running (task : Task) (rest : List (Part Task)) :
    SoundParts meanings (.running task :: rest) ↔ task.Sound meanings ∧ SoundParts meanings rest := by
  simp [SoundParts]

theorem soundParts_iff {meanings : Lookup → Prop} {parts : List (Part Task)} :
    SoundParts meanings parts ↔ ∀ task, .running task ∈ parts → task.Sound meanings := by
  induction parts with
  | nil => simp
  | cons part rest ih => cases part <;> simp [ih, or_imp, forall_and]

@[simp] theorem soundParts_append (first second : List (Part Task)) :
    SoundParts meanings (first ++ second) ↔ SoundParts meanings first ∧ SoundParts meanings second := by
  induction first with
  | nil => simp
  | cons part rest ih => cases part <;> simp [ih, and_assoc]

theorem soundElements_iff {meanings : Lookup → Prop} {elements : List (Nat × Task)} :
    SoundElements meanings elements ↔ ∀ element ∈ elements, element.2.Sound meanings := by
  induction elements with
  | nil => simp [SoundElements]
  | cons element rest ih => simp [SoundElements, ih]

end Lists

namespace Task

variable {lookup : Lookup} {meanings : Lookup → Prop}

/-- The elements of a collection with the values they will have. -/
def elementValues (lookup : Lookup) (fan : Fan Task) : List (Nat × Option Value) :=
  valuesOfElements lookup fan.queued ++ valuesOfElements lookup fan.running ++
    fan.done.map fun item => (item.1, some item.2)

@[simp] theorem value?_node (node : Node) (scope : Scope) :
    (Task.node node scope).value? lookup = node.evaluate lookup := rfl

@[simp] theorem value?_shell (shell : Shell) (scope : Scope) :
    (Task.shell shell scope).value? lookup = shell.evaluate lookup := rfl

@[simp] theorem value?_variant (tag : String) (shell : Shell) (scope : Scope) :
    (Task.variant tag shell scope).value? lookup = (shell.evaluate lookup).map (.variant tag) := rfl

@[simp] theorem value?_field (entity name : String) (slot : Slot) (scope : Scope) :
    (Task.field entity name slot scope).value? lookup = slot.evaluate lookup := rfl

@[simp] theorem value?_delay (due timer : Nat) (next : Task) :
    (Task.delay due timer next).value? lookup = next.value? lookup := rfl

@[simp] theorem value?_forever : Task.forever.value? lookup = none := rfl

@[simp] theorem value?_waiting (fetch : Fetch) (ticket : Nat) :
    (Task.waiting fetch ticket).value? lookup = lookup fetch.key := rfl

@[simp] theorem sound_node (node : Node) (scope : Scope) : (Task.node node scope).Sound meanings := trivial

@[simp] theorem sound_shell (shell : Shell) (scope : Scope) :
    (Task.shell shell scope).Sound meanings := trivial

@[simp] theorem sound_variant (tag : String) (shell : Shell) (scope : Scope) :
    (Task.variant tag shell scope).Sound meanings := trivial

@[simp] theorem sound_field (entity name : String) (slot : Slot) (scope : Scope) :
    (Task.field entity name slot scope).Sound meanings := trivial

@[simp] theorem sound_delay (due timer : Nat) (next : Task) :
    (Task.delay due timer next).Sound meanings ↔ next.Unstarted := .rfl

@[simp] theorem sound_forever : Task.forever.Sound meanings := trivial

@[simp] theorem sound_waiting (fetch : Fetch) (ticket : Nat) :
    (Task.waiting fetch ticket).Sound meanings := trivial

@[simp] theorem value?_fan (fan : Fan Task) :
    (Task.fan fan).value? lookup = gathered fan.size (elementValues lookup fan) := by
  cases fan
  simp [value?, elementValues]

@[simp] theorem value?_join (parts : List (Part Task)) :
    (Task.join parts).value? lookup = (collect (valuesOfParts lookup parts)).map .list := rfl

@[simp] theorem value?_inside (frame : Frame) (task : Task) :
    (Task.inside frame task).value? lookup = frame.value? lookup (task.value? lookup) := rfl

@[simp] theorem sound_fan (fan : Fan Task) :
    (Task.fan fan).Sound meanings ↔
      fan.Proper ∧ SoundElements meanings fan.queued ∧ SoundElements meanings fan.running := by
  cases fan
  simp [Sound]

@[simp] theorem sound_join (parts : List (Part Task)) :
    (Task.join parts).Sound meanings ↔ SoundParts meanings parts := by
  simp [Sound]

@[simp] theorem sound_inside (frame : Frame) (task : Task) :
    (Task.inside frame task).Sound meanings ↔
      (∀ fetch, frame = .fetching fetch → ∀ lookup, meanings lookup →
        Below (task.value? lookup) (lookup fetch.key)) ∧ task.Sound meanings := .rfl

theorem unstarted_node (node : Node) (scope : Scope) : (Task.node node scope).Unstarted := trivial

theorem Unstarted.sound {task : Task} (unstarted : task.Unstarted) : task.Sound meanings := by
  unfold Task.Unstarted at unstarted
  split at unstarted
  next => simp
  next parts =>
    rw [sound_join]
    induction parts with
    | nil => simp
    | cons part rest ih =>
      obtain ⟨node, scope, rfl⟩ := unstarted part List.mem_cons_self
      simpa using ih fun other member => unstarted other (List.mem_cons_of_mem _ member)
  next => exact absurd unstarted id

theorem elementValues_keys (fan : Fan Task) :
    (elementValues lookup fan).map (·.1) = fan.positions := by
  simp [elementValues, Fan.positions, valuesOfElements_eq_map, Function.comp_def]

end Task

/-- The order in which the elements of a collection are listed does not matter. -/
theorem gathered_perm {size : Nat} {first second : List (Nat × Option Value)}
    (distinct : (first.map (·.1)).Nodup) (same : first.Perm second) :
    gathered size first = gathered size second := by
  simp only [gathered, OrderedMap.get?_perm distinct same]

theorem Fan.Proper.distinct {fan : Fan Task} (proper : fan.Proper) : fan.positions.Nodup :=
  proper.whole.nodup_iff.mpr List.nodup_range

/-- No position of what is to start or runs is taken twice. -/
theorem Fan.Proper.distinct_started {fan : Fan Task} (proper : fan.Proper) :
    ((fan.queued ++ fan.running).map (·.1)).Nodup := by
  rw [List.map_append]
  exact (List.nodup_append.mp proper.distinct).1

theorem Fan.Proper.distinct_running {fan : Fan Task} (proper : fan.Proper) : (fan.running.map (·.1)).Nodup :=
  (List.nodup_append.mp (List.nodup_append.mp proper.distinct).1).2.1

/-- It stays so when an element leaves. -/
theorem Fan.Proper.distinct_others {fan : Fan Task} {element : Nat × Task}
    (proper : Fan.Proper { fan with running := element :: fan.running }) :
    ((fan.queued ++ fan.running).map (·.1)).Nodup :=
  proper.distinct_started.sublist (((List.sublist_cons_self element fan.running).append_left fan.queued).map _)

/-- A collection all of whose elements are done has the list of their values. -/
theorem gathered_done {fan : Fan Task} (proper : fan.Proper) (queued : fan.queued = [])
    (running : fan.running = []) (lookup : Lookup) :
    gathered fan.size (Task.elementValues lookup fan) = some (.list fan.values) := by
  have known : ∀ position ∈ List.range fan.size, ∃ value,
      OrderedMap.get? fan.done position = some value := by
    intro position member
    have listed : position ∈ fan.done.map (·.1) := by
      simpa [Fan.positions, queued, running] using proper.whole.mem_iff.mpr member
    cases found : OrderedMap.get? fan.done position with
    | none => exact absurd listed (OrderedMap.get?_eq_none_iff.mp found)
    | some value => exact ⟨value, rfl⟩
  have entries : Task.elementValues lookup fan = fan.done.map fun item => (item.1, some item.2) := by
    simp [Task.elementValues, queued, running, valuesOfElements]
  rw [gathered, entries, Fan.values]
  simp only [OrderedMap.get?_map]
  generalize List.range fan.size = positions at known
  induction positions with
  | nil => rfl
  | cons position rest ih =>
    obtain ⟨value, found⟩ := known position List.mem_cons_self
    have later := ih fun other member => known other (List.mem_cons_of_mem _ member)
    rw [Option.map_eq_some_iff] at later
    obtain ⟨values, all, same⟩ := later
    cases same
    simp [found, all]

/-- A collection with an element that has no value has none. -/
theorem gathered_none {size : Nat} {entries : List (Nat × Option Value)} {position : Nat}
    (inside : position < size) (found : OrderedMap.get? entries position = some none) :
    gathered size entries = none := by
  rw [gathered, Option.map_eq_none_iff, collect_eq_none_iff]
  exact List.mem_map.mpr ⟨position, List.mem_range.mpr inside, by simp [found]⟩

end Blueprint
