import Mathlib.Algebra.Order.BigOperators.Group.List
import Mathlib.Algebra.Order.Group.Nat
import Mathlib.Algebra.GroupWithZero.Nat
import Blueprint.Proofs.Schedule
import Blueprint.Proofs.Task.Whole
/-! How long a resolution takes. A node takes the time that its delays add up to where one thing comes after another,
the longest of the times where things run side by side, and the makespan of a greedy schedule where a bound holds. A
task that has come some way, looked at some time, ends when what is left to do has taken its time. -/

namespace Blueprint

open Schedule

mutual

/-- The time that a node takes if some number of elements of each collection may run at a time. -/
def Node.time (slots : Nat) : Node → Nat
  | .literal _ | .reference _ _ => 0
  | .nested shell => shell.time slots

/-- The fields of the first stage of a record run side by side, and all later fields one after another. -/
def Shell.time (slots : Nat) : Shell → Nat
  | .record type fields =>
    let stages := type.plan (fieldTimes slots fields)
    latest 0 ((stages.headD []).map (·.2)) + (stages.tail.flatten.map (·.2)).sum
  | .variant _ _ shell => shell.time slots
  | .counted _ _ delay _ => delay
  | .stalled _ _ => 0
  | .delayed _ node delay => delay + node.time slots

def Slot.time (slots : Nat) : Slot → Nat
  | .required none | .optional none => 0
  | .required (some node) | .optional (some node) => node.time slots
  | .repeated nodes => makespan slots (itemTimes slots nodes)
  | .keyed pairs => makespan slots (pairTimes slots pairs)

def fieldTimes (slots : Nat) : List (String × Slot) → List (String × Nat)
  | [] => []
  | (name, slot) :: rest => (name, slot.time slots) :: fieldTimes slots rest

def itemTimes (slots : Nat) : List Node → List Nat
  | [] => []
  | node :: rest => node.time slots :: itemTimes slots rest

def pairTimes (slots : Nat) : List (Node × Node) → List Nat
  | [] => []
  | (key, value) :: rest => max (key.time slots) (value.time slots) :: pairTimes slots rest

end

/-- The time that some stages of a record take, one after another. -/
def stagesTime (slots : Nat) (stages : List (List (String × Slot))) : Nat :=
  (stages.map fun fields => latest 0 (fields.map fun field => field.2.time slots)).sum

section Traversal

variable (slots : Nat)

theorem fieldTimes_eq_map (fields : List (String × Slot)) :
    fieldTimes slots fields = fields.map fun field => (field.1, field.2.time slots) := by
  induction fields with
  | nil => simp [fieldTimes]
  | cons field rest ih => simp [fieldTimes, ih]

theorem itemTimes_eq_map (nodes : List Node) : itemTimes slots nodes = nodes.map (Node.time slots) := by
  induction nodes with
  | nil => simp [itemTimes]
  | cons node rest ih => simp [itemTimes, ih]

theorem pairTimes_eq_map (pairs : List (Node × Node)) :
    pairTimes slots pairs = pairs.map fun pair => max (pair.1.time slots) (pair.2.time slots) := by
  induction pairs with
  | nil => simp [pairTimes]
  | cons pair rest ih => simp [pairTimes, ih]

theorem stagesTime_cons (fields : List (String × Slot)) (later : List (List (String × Slot))) :
    stagesTime slots (fields :: later) =
      latest 0 (fields.map fun field => field.2.time slots) + stagesTime slots later := by
  simp [stagesTime]

/-- Stages of single fields take the times of all fields together. -/
theorem stagesTime_single {stages : List (List (String × Slot))} (single : ∀ stage ∈ stages, stage.length ≤ 1) :
    stagesTime slots stages = (stages.flatten.map fun field => field.2.time slots).sum := by
  induction stages with
  | nil => rfl
  | cons fields later ih =>
    obtain ⟨own, others⟩ := List.forall_mem_cons.mp single
    rw [stagesTime_cons, ih others, List.flatten_cons, List.map_append, List.sum_append]
    rcases fields with _ | ⟨field, _ | ⟨second, rest⟩⟩
    · rfl
    · simp [latest]
    · simp at own

/-- The stages of a record after the first one are single fields. -/
theorem EntityType.length_later {α : Type} (type : EntityType) (fields : List (String × α)) :
    ∀ stage ∈ (type.plan fields).tail, stage.length ≤ 1 := by
  have single : ∀ form, type.form = .record form → ∀ names ∈ form.stages.tail, names.length ≤ 1 := by
    cases type <;> rintro form ⟨⟩ <;> decide
  intro stage member
  unfold plan at member
  split at member
  next form same =>
    rw [← List.map_tail] at member
    obtain ⟨names, listed, rfl⟩ := List.mem_map.mp member
    exact (List.length_filterMap_le _ _).trans (single form same names listed)
  next => cases member

/-- A record takes the time of its stages, one after another. -/
theorem Shell.time_record (type : EntityType) (fields : List (String × Slot)) :
    (Shell.record type fields).time slots = stagesTime slots (type.plan fields) := by
  have single := type.length_later fields
  rw [Shell.time, fieldTimes_eq_map, EntityType.plan_map]
  cases planned : type.plan fields with
  | nil => rfl
  | cons joined later =>
    rw [planned, List.tail_cons] at single
    rw [stagesTime_cons, stagesTime_single slots single]
    simp [List.map_flatten, Function.comp_def]

end Traversal

/-- More elements that may run at a time, at least one of which always may, make no node take longer. -/
theorem time_mono {few many : Nat} (one : 1 ≤ few) (le : few ≤ many) :
    (∀ node : Node, node.time many ≤ node.time few) ∧ (∀ shell : Shell, shell.time many ≤ shell.time few) ∧
      ∀ slot : Slot, slot.time many ≤ slot.time few := by
  apply Node.tree_induction
  case literal | reference | counted | stalled =>
    intros
    exact Nat.le_refl _
  case nested => exact fun shell ih => ih
  case record =>
    intro type fields ih
    rw [Shell.time_record, Shell.time_record, stagesTime, stagesTime]
    refine List.sum_le_sum fun stage inside => latest_le_iff.mpr ⟨Nat.zero_le _, List.forall_mem_map.mpr ?_⟩
    intro field member
    have own := ih field (EntityType.mem_of_mem_plan (List.mem_flatten_of_mem inside member))
    exact own.trans (le_latest (List.mem_map_of_mem member))
  case variant => exact fun _ _ shell ih => ih
  case delayed => exact fun _ node delay ih => Nat.add_le_add_left ih delay
  case required | optional =>
    intro node ih
    cases node with
    | none => exact Nat.le_refl _
    | some node => exact ih node rfl
  case repeated =>
    intro nodes ih
    rw [Slot.time, Slot.time, itemTimes_eq_map, itemTimes_eq_map]
    refine makespan_mono one le (List.forall₂_map_left_iff.mpr (List.forall₂_map_right_iff.mpr ?_))
    exact List.forall₂_same.mpr ih
  case keyed =>
    intro pairs ih
    rw [Slot.time, Slot.time, pairTimes_eq_map, pairTimes_eq_map]
    refine makespan_mono one le (List.forall₂_map_left_iff.mpr (List.forall₂_map_right_iff.mpr ?_))
    exact List.forall₂_same.mpr fun pair member => max_le_max (ih pair member).1 (ih pair member).2

/-- The time that what comes after the task in a frame takes. -/
def Frame.time : Frame → Nat
  | .stage record => stagesTime record.scope.config.effectiveConcurrency record.later
  | .present | .tagged _ | .folding _ | .fetching _ => 0

mutual

/-- When a task that is looked at now comes to its end, as far as that depends on the clock. Elements of a collection
that are queued are given to the slots that become free. -/
def Task.ends (now : Nat) : Task → Nat
  | .node node scope => now + node.time scope.config.effectiveConcurrency
  | .shell shell scope | .variant _ shell scope => now + shell.time scope.config.effectiveConcurrency
  | .field _ _ slot scope => now + slot.time scope.config.effectiveConcurrency
  | .delay due _ next => next.ends (max now due)
  | .forever | .waiting _ _ => now
  | .inside frame task => task.ends now + frame.time
  | .join parts => latest now (endsOfParts now parts)
  | .fan ⟨_, limit, _, queued, running, _⟩ =>
    latest now (assignAll (endsOfElements now running ++ List.replicate (limit - running.length) now)
      (endsOfElements 0 queued))

def endsOfParts (now : Nat) : List (Part Task) → List Nat
  | [] => []
  | .done _ :: rest => endsOfParts now rest
  | .running task :: rest => task.ends now :: endsOfParts now rest

def endsOfElements (now : Nat) : List (Nat × Task) → List Nat
  | [] => []
  | (_, task) :: rest => task.ends now :: endsOfElements now rest

end

/-- The times from which on the slots of a collection are free for what is queued. -/
def Fan.slots (now : Nat) (fan : Fan Task) : List Nat :=
  endsOfElements now fan.running ++ List.replicate (fan.limit - fan.running.length) now

section Lists

variable (now : Nat)

@[simp] theorem endsOfParts_nil : endsOfParts now [] = [] := by simp [endsOfParts]

@[simp] theorem endsOfParts_done (value : Value) (rest : List (Part Task)) :
    endsOfParts now (.done value :: rest) = endsOfParts now rest := by simp [endsOfParts]

@[simp] theorem endsOfParts_running (task : Task) (rest : List (Part Task)) :
    endsOfParts now (.running task :: rest) = task.ends now :: endsOfParts now rest := by simp [endsOfParts]

@[simp] theorem endsOfParts_append (first second : List (Part Task)) :
    endsOfParts now (first ++ second) = endsOfParts now first ++ endsOfParts now second := by
  induction first with
  | nil => simp
  | cons part rest ih => cases part <;> simp [ih]

@[simp] theorem endsOfParts_done_all (values : List Value) : endsOfParts now (values.map .done) = [] := by
  induction values with
  | nil => simp
  | cons value rest ih => simp [ih]

theorem mem_endsOfParts {now : Nat} {parts : List (Part Task)} {time : Nat} :
    time ∈ endsOfParts now parts ↔ ∃ task, .running task ∈ parts ∧ task.ends now = time := by
  induction parts with
  | nil => simp
  | cons part rest ih => cases part <;> simp [ih, or_and_right, exists_or, eq_comm]

/-- Where the end of each task moves in one way, the ends of all of them do. -/
theorem endsOfParts_map {one two : Nat} {parts : List (Part Task)} (move : Nat → Nat)
    (each : ∀ task, .running task ∈ parts → task.ends two = move (task.ends one)) :
    endsOfParts two parts = (endsOfParts one parts).map move := by
  induction parts with
  | nil => simp
  | cons part rest ih =>
    have others := ih fun task member => each task (List.mem_cons_of_mem _ member)
    cases part with
    | done value => simpa using others
    | running task => simp [others, each task List.mem_cons_self]

theorem endsOfElements_eq_map (elements : List (Nat × Task)) :
    endsOfElements now elements = elements.map fun element => element.2.ends now := by
  induction elements with
  | nil => simp [endsOfElements]
  | cons element rest ih => simp [endsOfElements, ih]

end Lists

namespace Task

variable {now : Nat}

@[simp] theorem ends_node (node : Node) (scope : Scope) :
    (Task.node node scope).ends now = now + node.time scope.config.effectiveConcurrency := rfl

@[simp] theorem ends_shell (shell : Shell) (scope : Scope) :
    (Task.shell shell scope).ends now = now + shell.time scope.config.effectiveConcurrency := rfl

@[simp] theorem ends_variant (tag : String) (shell : Shell) (scope : Scope) :
    (Task.variant tag shell scope).ends now = now + shell.time scope.config.effectiveConcurrency := rfl

@[simp] theorem ends_field (entity name : String) (slot : Slot) (scope : Scope) :
    (Task.field entity name slot scope).ends now = now + slot.time scope.config.effectiveConcurrency := rfl

@[simp] theorem ends_delay (due timer : Nat) (next : Task) :
    (Task.delay due timer next).ends now = next.ends (max now due) := rfl

@[simp] theorem ends_forever : Task.forever.ends now = now := rfl

@[simp] theorem ends_waiting (fetch : Fetch) (ticket : Nat) : (Task.waiting fetch ticket).ends now = now := rfl

@[simp] theorem ends_inside (frame : Frame) (task : Task) :
    (Task.inside frame task).ends now = task.ends now + frame.time := rfl

@[simp] theorem ends_join (parts : List (Part Task)) :
    (Task.join parts).ends now = latest now (endsOfParts now parts) := rfl

@[simp] theorem ends_fan (fan : Fan Task) :
    (Task.fan fan).ends now = latest now (assignAll (fan.slots now) (endsOfElements 0 fan.queued)) := rfl

/-- Nothing ends before it is looked at. -/
theorem le_ends (now : Nat) (task : Task) : now ≤ task.ends now := by
  induction task using Task.induction generalizing now with
  | node | shell | variant | field => exact Nat.le_add_right _ _
  | delay due timer next ih => exact (Nat.le_max_left now due).trans (ih _)
  | forever | waiting => exact Nat.le_refl now
  | inside frame task ih => exact (ih now).trans (Nat.le_add_right _ _)
  | join | fan => exact start_le_latest _ _

/-- What has not started takes its time from now on. -/
theorem Unstarted.ends {task : Task} (unstarted : task.Unstarted) (now : Nat) : task.ends now = now + task.ends 0 := by
  unfold Task.Unstarted at unstarted
  split at unstarted
  next node scope => simp
  next parts =>
    have each : endsOfParts now parts = (endsOfParts 0 parts).map (now + ·) := by
      refine endsOfParts_map (now + ·) fun task member => ?_
      obtain ⟨node, scope, same⟩ := unstarted _ member
      cases same
      simp
    rw [ends_join, ends_join, each, latest_shift]
  next => exact absurd unstarted id

end Task

/-- No slot of a collection is free before now. -/
theorem Fan.le_slots {now : Nat} {fan : Fan Task} : ∀ time ∈ fan.slots now, now ≤ time := by
  intro time member
  rcases List.mem_append.mp member with runs | idle
  · rw [endsOfElements_eq_map] at runs
    obtain ⟨element, _, rfl⟩ := List.mem_map.mp runs
    exact Task.le_ends now _
  · exact (List.eq_of_mem_replicate idle).ge

/-- No element that runs ends later than its collection. -/
theorem ends_le_fan {now : Nat} {fan : Fan Task} {element : Nat × Task} (member : element ∈ fan.running) :
    element.2.ends now ≤ (Task.fan fan).ends now := by
  have slot : element.2.ends now ∈ fan.slots now := by
    rw [Fan.slots, endsOfElements_eq_map]
    exact List.mem_append_left _ (List.mem_map_of_mem member)
  exact (le_latest slot).trans (latest_le_assignAll _ _ _)

/-- Nothing in a layer ends later than the whole. -/
theorem Layer.ends_le_around (now : Nat) (layer : Layer) (task : Task) :
    task.ends now ≤ (layer.around task).ends now := by
  cases layer with
  | inside frame => exact Nat.le_add_right _ _
  | joining before after => exact le_latest (mem_endsOfParts.mpr ⟨task, by simp, rfl⟩)
  | fanning fan position tally =>
    exact @ends_le_fan now { fan with running := (position, task) :: fan.running } _ List.mem_cons_self

theorem ends_le_surround (now : Nat) (layers : List Layer) (task : Task) :
    task.ends now ≤ (surround layers task).ends now := by
  induction layers generalizing task with
  | nil => exact Nat.le_refl _
  | cons layer outer ih => exact (layer.ends_le_around now task).trans (ih _)

/-- At most as many elements of a collection run as may, and not fewer if something runs and something is queued. -/
structure Fan.Packed (fan : Fan Task) : Prop where
  bounded : fan.running.length ≤ fan.limit
  full : fan.running = [] ∨ fan.queued = [] ∨ fan.running.length = fan.limit

/-- A collection of a task, at whatever depth. -/
inductive Task.Nests : Task → Fan Task → Prop where
  | here (fan : Fan Task) : Nests (.fan fan) fan
  | element {fan inner : Fan Task} {position : Nat} {task : Task} (member : (position, task) ∈ fan.running)
      (nests : Nests task inner) : Nests (.fan fan) inner
  | inside {frame : Frame} {task : Task} {fan : Fan Task} (nests : Nests task fan) : Nests (.inside frame task) fan
  | join {parts : List (Part Task)} {task : Task} {fan : Fan Task} (member : .running task ∈ parts)
      (nests : Nests task fan) : Nests (.join parts) fan

/-- All collections of a task run what they may. -/
def Task.Packed (task : Task) : Prop :=
  ∀ fan, task.Nests fan → fan.Packed

namespace Task

variable {task : Task}

/-- What no other tasks run inside of. -/
def Bare : Task → Prop
  | .inside _ _ | .join _ | .fan _ => False
  | .node _ _ | .shell _ _ | .variant _ _ _ | .field _ _ _ _ | .delay _ _ _ | .forever | .waiting _ _ => True

theorem packed_of_bare (bare : task.Bare) : task.Packed := by
  intro fan nests
  cases nests with
  | here | element | inside | join => exact bare.elim

theorem packed_inside {frame : Frame} : (Task.inside frame task).Packed ↔ task.Packed :=
  ⟨fun packed fan nests => packed fan (.inside nests), fun packed fan nests => by
    cases nests with
    | inside nests => exact packed fan nests⟩

theorem packed_join {parts : List (Part Task)} :
    (Task.join parts).Packed ↔ ∀ task, .running task ∈ parts → task.Packed :=
  ⟨fun packed task member fan nests => packed fan (.join member nests), fun packed fan nests => by
    cases nests with
    | join member nests => exact packed _ member fan nests⟩

theorem packed_fan {fan : Fan Task} :
    (Task.fan fan).Packed ↔ fan.Packed ∧ ∀ element ∈ fan.running, element.2.Packed :=
  ⟨fun packed => ⟨packed fan (.here fan), fun _ member inner nests => packed inner (.element member nests)⟩,
    fun packed inner nests => by
      cases nests with
      | here => exact packed.1
      | element member nests => exact packed.2 _ member inner nests⟩

theorem Unstarted.packed (unstarted : task.Unstarted) : task.Packed := by
  unfold Task.Unstarted at unstarted
  split at unstarted
  next => exact packed_of_bare trivial
  next parts =>
    refine packed_join.mpr fun task member => ?_
    obtain ⟨node, scope, same⟩ := unstarted _ member
    cases same
    exact packed_of_bare trivial
  next => exact absurd unstarted id

/-- The second task runs what it may if the first one does, and comes to its end at the same time. -/
def Times (now : Nat) (before after : Task) : Prop :=
  before.Packed → after.Packed ∧ after.ends now = before.ends now

namespace Times

variable {now : Nat} {first second third before after : Task}

theorem refl (now : Nat) (task : Task) : task.Times now task := fun packed => ⟨packed, rfl⟩

theorem trans (left : first.Times now second) (right : second.Times now third) : first.Times now third :=
  fun packed =>
    have middle := left packed
    have last := right middle.1
    ⟨last.1, last.2.trans middle.2⟩

/-- In an unfinished whole one part may be exchanged for another. -/
theorem around {layer : Layer} (times : before.Times now after) :
    (layer.around before).Times now (layer.around after) := by
  intro packed
  cases layer with
  | inside frame =>
    obtain ⟨inner, same⟩ := times (packed_inside.mp packed)
    exact ⟨packed_inside.mpr inner, by simp [Layer.around, same]⟩
  | joining first last =>
    have each := packed_join.mp packed
    obtain ⟨inner, same⟩ := times (each before (by simp))
    refine ⟨packed_join.mpr fun task member => ?_, by simp [Layer.around, same]⟩
    simp only [List.mem_append, List.mem_cons, Part.running.injEq] at member each
    rcases member with earlier | rfl | later
    · exact each task (.inl earlier)
    · exact inner
    · exact each task (.inr (.inr later))
  | fanning fan position tally =>
    obtain ⟨own, each⟩ := packed_fan.mp packed
    obtain ⟨inner, same⟩ := times (each (position, before) List.mem_cons_self)
    refine ⟨packed_fan.mpr ⟨⟨own.bounded, own.full.imp_left fun none => absurd none (List.cons_ne_nil _ _)⟩, ?_⟩, ?_⟩
    · exact List.forall_mem_cons.mpr ⟨inner, (List.forall_mem_cons.mp each).2⟩
    · simp [Layer.around, Fan.slots, endsOfElements_eq_map, same]

theorem surrounded {layers : List Layer} (times : before.Times now after) :
    (surround layers before).Times now (surround layers after) := by
  induction layers generalizing before after with
  | nil => exact times
  | cons layer outer ih => exact ih times.around

end Times

end Task

end Blueprint
