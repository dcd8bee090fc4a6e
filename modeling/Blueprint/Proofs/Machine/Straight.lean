import Mathlib.Logic.Relation
import Blueprint.Proofs.Machine.Quiet
/-! Machines that never have to wait. They go through a task from its first part to its last one, whatever the bounds
of collections are, and stop at the first failure. -/

namespace Blueprint

open Relation

namespace World

/-- Every collection that has strands in the queue has had its number given out. -/
def Tidy (world : World) : Prop :=
  ∀ id position, .element id position ∈ world.ready → id < world.fresh

/-- What stays as it was where nothing waits: the entries, and who has been woken. -/
structure Passes (before after : World) : Prop where
  entries : after.registry.entries = before.registry.entries
  ready : after.ready = before.ready
  fresh : before.fresh ≤ after.fresh

namespace Passes

variable {first second third : World}

theorem refl (world : World) : world.Passes world := ⟨rfl, rfl, Nat.le_refl _⟩

theorem trans (left : first.Passes second) (right : second.Passes third) : first.Passes third :=
  ⟨right.entries.trans left.entries, right.ready.trans left.ready, left.fresh.trans right.fresh⟩

theorem emit (world : World) (event : Event) : world.Passes (world.emit event) := ⟨rfl, rfl, Nat.le_refl _⟩

theorem count (world : World) (counter : Nat) : world.Passes (world.count counter) := ⟨rfl, rfl, Nat.le_refl _⟩

theorem tidy (passes : first.Passes second) (tidy : first.Tidy) : second.Tidy := fun id position member =>
  (tidy id position (passes.ready ▸ member)).trans_le passes.fresh

end Passes

end World

/-- What is to be expected of a computation with these failures, in order: the first one, if there is any. -/
def Verdict (failures : List ResolveError) : Except ResolveError Value → Prop
  | .ok _ => failures = []
  | .error error => failures.head? = some error

/-- A way for a machine to begin something. -/
abbrev Routine := Machine → World → Machine × World

namespace Routine

/-- Look at a task. -/
def look (task : Task) : Routine := fun machine world => (machine.poll task, world)

/-- The same inside one more layer. -/
def within (layer : Layer) (routine : Routine) : Routine := fun machine world =>
  routine { machine with layers := layer :: machine.layers } world

end Routine

/-- Some steps of a machine in its world. -/
def Machine.Leads : Machine × World → Machine × World → Prop :=
  ReflTransGen fun before after => before.1.step before.2 = some after

/-- A routine that comes to its end without waiting, wherever the entries are these, and fails with the first of
its failures if there is any. -/
def Routine.Settles (entries : List (Key × Entry)) (routine : Routine) (failures : List ResolveError) : Prop :=
  ∀ (machine : Machine) (world : World), world.registry.entries = entries → world.Tidy →
    ∃ result later, Machine.Leads (routine machine world) (machine.finish result, later) ∧
      world.Passes later ∧ Verdict failures result

/-- A look that leads to its end is found with enough fuel. -/
theorem Machine.Leads.run {start : Machine × World} {machine : Machine} {world : World}
    (leads : Machine.Leads start (machine, world)) (ended : machine.step world = none) :
    ∃ fuel, start.1.run fuel start.2 = some (machine, world) := by
  induction leads using ReflTransGen.head_induction_on with
  | refl => exact ⟨1, by simp [Machine.run, ended]⟩
  | head step _ ih =>
    obtain ⟨fuel, run⟩ := ih
    exact ⟨fuel + 1, by simp [Machine.run, step, run]⟩

namespace Routine

variable {entries : List (Key × Entry)} {routine : Routine} {failures more : List ResolveError} {task : Task}

/-- What is over at once. -/
theorem settles_of_finish {result : Except ResolveError Value} (verdict : Verdict failures result)
    (finishes : ∀ machine world, routine machine world = (machine.finish result, world)) :
    routine.Settles entries failures := fun machine world _ _ =>
  ⟨result, world, finishes machine world ▸ .refl, .refl world, verdict⟩

/-- What goes on with another routine, in a world that has passed on. -/
theorem Settles.of_passes {next : Routine} (settles : next.Settles entries failures) {pass : World → World}
    (passes : ∀ world : World, world.Passes (pass world))
    (goes : ∀ machine world, routine machine world = next machine (pass world)) :
    routine.Settles entries failures := by
  intro machine world same tidy
  obtain ⟨result, later, leads, passed, verdict⟩ :=
    settles machine (pass world) ((passes world).entries.trans same) ((passes world).tidy tidy)
  exact ⟨result, later, goes machine world ▸ leads, (passes world).trans passed, verdict⟩

/-- A look at a task begins with a step. -/
theorem Settles.look (settles : Settles entries (fun machine world => machine.pollTask task world) failures) :
    (look task).Settles entries failures := by
  intro machine world same tidy
  obtain ⟨result, later, leads, passed, verdict⟩ := settles (machine.poll task) world same tidy
  exact ⟨result, later, .head rfl leads, passed, verdict⟩

theorem Verdict.append {result : Except ResolveError Value} (verdict : Verdict more result) (none : failures = []) :
    Verdict (failures ++ more) result := by
  rw [none]
  exact verdict

theorem Verdict.left {error : ResolveError} (verdict : Verdict failures (.error error)) :
    Verdict (failures ++ more) (.error error) := by
  have first : failures.head? = some error := verdict
  show (failures ++ more).head? = some error
  rw [List.head?_append, first]
  rfl

/-- In a layer with nothing to drop, the failures of what lies in it come first. -/
theorem Settles.within {layer : Layer} (still : ∀ world, Machine.failIn layer world = world)
    (inner : routine.Settles entries failures)
    (next : ∀ value, Settles entries (fun machine world => machine.finishIn layer value world) more) :
    (routine.within layer).Settles entries (failures ++ more) := by
  intro machine world same tidy
  obtain ⟨result, between, leads, passes, verdict⟩ :=
    inner { machine with layers := layer :: machine.layers } world same tidy
  cases result with
  | ok value =>
    obtain ⟨last, later, further, passed, final⟩ := next value (machine.finish (.ok value)) between
      (passes.entries.trans same) (passes.tidy tidy)
    exact ⟨last, later, leads.trans (.head rfl further), passes.trans passed, Verdict.append final verdict⟩
  | error error =>
    exact ⟨.error error, between, leads.tail (congrArg (fun later => some (_, later)) (still between)), passes,
      Verdict.left verdict⟩

/-- A frame that only makes something of a value adds no failures. -/
theorem Settles.framed {frame : Frame} (plain : ∀ fetch, frame ≠ .fetching fetch)
    (closes : ∀ (machine : Machine) (value : Value) (world : World), ∃ own later,
      machine.finishFrame frame value world = (machine.finish (.ok own), later) ∧ world.Passes later)
    (inner : routine.Settles entries failures) : (routine.within (.inside frame)).Settles entries failures := by
  have still : ∀ world, Machine.failIn (.inside frame) world = world := by
    intro world
    cases frame with
    | fetching fetch => exact absurd rfl (plain fetch)
    | _ => rfl
  rw [← List.append_nil failures]
  refine inner.within still fun value machine world same _ => ?_
  obtain ⟨own, later, ends, passes⟩ := closes machine value world
  refine ⟨.ok own, later, ?_, passes, rfl⟩
  show Machine.Leads (machine.finishFrame frame value world) _
  rw [ends]
  exact .refl

end Routine

theorem fold_passes (path : Path) (pairs : List (Value × Value)) (world : World) :
    world.Passes (Machine.fold path pairs world).2 :=
  Machine.fold_keeps .refl .trans (fun world => .emit world _) pairs world

/-- A task that leaves no trace if it is dropped. -/
def Task.Traceless (task : Task) : Prop := ∀ world : World, world.cancel task = world

theorem cancelParts_traceless {parts : List (Part Task)} (each : ∀ task, .running task ∈ parts → task.Traceless)
    (world : World) : world.cancelParts parts = world := by
  induction parts generalizing world with
  | nil => simp [World.cancelParts]
  | cons part rest ih =>
    have later := ih fun task member => each task (List.mem_cons_of_mem _ member)
    cases part with
    | done value => simp [World.cancelParts, later]
    | running task => simp [World.cancelParts, later, each task List.mem_cons_self _]

theorem cancelElements_traceless {elements : List (Nat × Task)} (each : ∀ element ∈ elements, element.2.Traceless)
    (world : World) : world.cancelElements elements = world := by
  induction elements generalizing world with
  | nil => simp [World.cancelElements]
  | cons element rest ih =>
    simp [World.cancelElements, each element List.mem_cons_self _,
      ih fun other member => each other (List.mem_cons_of_mem _ member)]

theorem traceless_node (node : Node) (scope : Scope) : (Task.node node scope).Traceless := fun world => by
  simp [World.cancel]

theorem traceless_field (entity name : String) (slot : Slot) (scope : Scope) :
    (Task.field entity name slot scope).Traceless := fun world => by simp [World.cancel]

theorem Task.Unstarted.traceless {task : Task} (unstarted : task.Unstarted) : task.Traceless := by
  unfold Task.Unstarted at unstarted
  split at unstarted
  next node scope => exact traceless_node node scope
  next parts =>
    intro world
    rw [World.cancel]
    refine cancelParts_traceless (fun task member => ?_) world
    obtain ⟨node, scope, same⟩ := unstarted _ member
    cases same
    exact traceless_node node scope
  next => exact unstarted.elim

namespace Routine

section Several

variable {entries : List (Key × Entry)} {α : Type} {items : List α} {task : α → Task}
  {failures : α → List ResolveError}
  (each : ∀ item ∈ items, (look (task item)).Settles entries (failures item))
  (traceless : ∀ item ∈ items, (task item).Traceless)

include each traceless

/-- Computations side by side are gone through in order. -/
theorem settles_parts (values : List Value) : Settles entries
    (fun machine world => (machine.nextPart (values.map .done) (items.map fun item => .running (task item)), world))
    (items.flatMap failures) := by
  induction items generalizing values with
  | nil =>
    have verdict : Verdict [] (.ok (.list values)) := rfl
    refine settles_of_finish verdict fun machine world => ?_
    have known : (values.map fun value => (.done value : Part Task)).mapM Part.value? = some values := by
      rw [mapM_eq_collect, List.map_map]
      exact collect_map_some values
    simp [Machine.nextPart, known]
  | cons item rest ih =>
    have others := fun other member => traceless other (List.mem_cons_of_mem item member)
    rw [List.flatMap_cons]
    show Settles entries (within (.joining (values.map .done) (rest.map fun item => .running (task item)))
      (look (task item))) _
    refine .within (fun world => cancelParts_traceless (fun other member => ?_) world) (each item List.mem_cons_self)
      fun value => ?_
    · rcases List.mem_append.mp member with done | running
      · obtain ⟨_, _, same⟩ := List.mem_map.mp done
        cases same
      · obtain ⟨after, listed, same⟩ := List.mem_map.mp running
        cases same
        exact others after listed
    · have next := ih (fun other member => each other (List.mem_cons_of_mem _ member)) others (values ++ [value])
      simpa [Machine.finishIn] using next

theorem settles_join :
    (look (.join (items.map fun item => .running (task item)))).Settles entries (items.flatMap failures) :=
  (settles_parts each traceless []).look

end Several

/-- The stages of a record are gone through one after another, and the fields of each in order. -/
theorem settles_stages {entries : List (Key × Entry)} {type : EntityType} {scope : Scope}
    {failures : String × Slot → List ResolveError} (stages : List (List (String × Slot)))
    (each : ∀ field ∈ stages.flatten,
      (look (.field type.entityName field.1 field.2 scope)).Settles entries (failures field))
    (done : List (String × Value)) :
    Settles entries (fun machine world => (machine.nextStage type scope done stages, world))
      (stages.flatten.flatMap failures) := by
  induction stages generalizing done with
  | nil =>
    have verdict : Verdict [] (.ok (type.assemble done)) := rfl
    exact settles_of_finish verdict fun _ _ => rfl
  | cons fields later ih =>
    rw [List.flatten_cons, List.flatMap_append]
    show Settles entries (within (.inside (.stage ⟨type, scope, done, fields.map (·.1), later⟩))
      (look (.join (fields.map fun field => .running (.field type.entityName field.1 field.2 scope))))) _
    have here := settles_join (fun field member => each field (List.mem_append_left _ member))
      fun field _ => traceless_field _ _ _ _
    refine .within (fun world => rfl) here fun value => ?_
    exact ih (fun field member => each field (List.mem_append_right _ member)) _

end Routine

section Collections

/-- The strand of an element of a collection. -/
def Fan.strandOf (fan : Fan Task) (element : Nat × Task) : Strand := .element fan.id element.1

/-- The world in which the elements to be started now are queued. -/
def Fan.launched (fan : Fan Task) (world : World) : World :=
  { world with ready := world.ready ++ fan.starting.map fan.strandOf }

/-- A collection whose elements are gone through in order: those that were started are waiting to be looked at in
the order in which they were, and after all other strands that were woken. -/
structure Fan.Lined (fan : Fan Task) (world : World) (outer : List Strand) (pending : List (Nat × Task)) : Prop where
  order : fan.running.reverse ++ fan.queued = pending
  positive : 1 ≤ fan.limit
  distinct : (pending.map (·.1)).Nodup
  ready : world.ready = outer ++ fan.running.reverse.map fan.strandOf
  foreign : ∀ strand ∈ outer, strand.isElementOf fan.id = false
  numbered : fan.id < world.fresh
  tidy : ∀ id position, .element id position ∈ outer → id < world.fresh

namespace Fan.Lined

variable {fan : Fan Task} {world : World} {outer : List Strand} {pending rest : List (Nat × Task)}
  {element : Nat × Task}

theorem refill (lined : fan.Lined world outer pending) :
    fan.refill.Lined (fan.launched world) outer pending where
  order := by
    rw [← lined.order]
    simp [Fan.refill, Fan.starting, List.take_append_drop]
  positive := lined.positive
  distinct := lined.distinct
  ready := by
    have same : fan.refill.strandOf = fan.strandOf := rfl
    simp [launched, lined.ready, Fan.refill, ← same]
  foreign := lined.foreign
  numbered := lined.numbered
  tidy := lined.tidy

theorem worldTidy (lined : fan.Lined world outer pending) : world.Tidy := by
  intro id position member
  rw [lined.ready] at member
  rcases List.mem_append.mp member with other | own
  · exact lined.tidy id position other
  · obtain ⟨element, _, same⟩ := List.mem_map.mp own
    cases same
    exact lined.numbered

theorem nextElement?_nil (lined : fan.Lined world outer []) : world.nextElement? fan.id = none := by
  have idle : fan.running = [] := by simpa using (List.append_eq_nil_iff.mp lined.order).1
  have absent : world.ready.find? (Strand.isElementOf fan.id) = none := by
    rw [List.find?_eq_none, lined.ready, idle]
    simpa using lined.foreign
  simp [World.nextElement?, absent]

/-- As long as elements are left one of them is running, for at least one is started. -/
theorem running_refill (lined : fan.Lined world outer (element :: rest)) :
    ∃ others, fan.refill.running.reverse = element :: others := by
  have order := lined.refill.order
  cases reversed : fan.refill.running.reverse with
  | nil =>
    have idle : fan.refill.running = [] := by simpa using reversed
    rw [reversed, Machine.refill_full lined.positive idle] at order
    cases order
  | cons next others =>
    rw [reversed, List.cons_append] at order
    exact ⟨others, by rw [(List.cons.inj order).1]⟩

section First

variable {others : List (Nat × Task)} (lined : fan.Lined world outer pending)
  (running : fan.running.reverse = element :: others)

include lined running

theorem strandOf_not_mem : fan.strandOf element ∉ outer ++ others.map fan.strandOf := by
  have distinct : ((element :: (others ++ fan.queued)).map (·.1)).Nodup := by
    have order := lined.order
    rw [running, List.cons_append] at order
    exact order ▸ lined.distinct
  intro member
  rcases List.mem_append.mp member with other | own
  · simpa [strandOf, Strand.isElementOf] using lined.foreign _ other
  · obtain ⟨later, listed, same⟩ := List.mem_map.mp own
    rw [List.map_cons, List.nodup_cons] at distinct
    refine distinct.1 (List.mem_map.mpr ⟨later, List.mem_append_left _ listed, ?_⟩)
    simpa [strandOf] using same

/-- The element that was started first is looked at first. -/
theorem nextElement?_cons : world.nextElement? fan.id =
    some (element.1, { world with ready := outer ++ others.map fan.strandOf }) := by
  have ready : world.ready = outer ++ fan.strandOf element :: others.map fan.strandOf := by
    rw [lined.ready, running, List.map_cons]
  have found : world.ready.find? (Strand.isElementOf fan.id) = some (.element fan.id element.1) := by
    rw [ready, List.find?_append, List.find?_eq_none.mpr (by simpa using lined.foreign)]
    simp [strandOf, Strand.isElementOf]
  have erased : world.ready.erase (.element fan.id element.1) = outer ++ others.map fan.strandOf := by
    have absent : .element fan.id element.1 ∉ outer :=
      fun member => strandOf_not_mem lined running (List.mem_append_left _ member)
    rw [ready, List.erase_append_right _ absent]
    simp [strandOf]
  simp [World.nextElement?, found, erased]

theorem get?_running : OrderedMap.get? fan.running element.1 = some element.2 := by
  have listed : element ∈ fan.running := by
    rw [← List.mem_reverse, running]
    exact List.mem_cons_self
  refine OrderedMap.get?_of_mem ?_ listed
  have distinct := lined.distinct
  rw [← lined.order, List.map_append] at distinct
  have own := (List.nodup_append.mp distinct).1
  rwa [List.map_reverse, List.nodup_reverse] at own

theorem reverse_filter_running : (fan.running.filter fun other => other.1 ≠ element.1).reverse = others := by
  have distinct := lined.distinct
  rw [← lined.order, running, List.cons_append, List.map_cons, List.nodup_cons] at distinct
  rw [← List.filter_reverse, running, List.filter_cons_of_neg (by simp), List.filter_eq_self]
  intro other member
  have apart : other.1 ≠ element.1 := fun same =>
    distinct.1 (List.mem_map.mpr ⟨other, List.mem_append_left _ member, same⟩)
  simpa using apart

end First

section Rest

variable {others : List (Nat × Task)} (lined : fan.Lined world outer (element :: rest))
  (running : fan.running.reverse = element :: others)

include lined running

theorem order_cons : others ++ fan.queued = rest := by
  have order := lined.order
  rw [running, List.cons_append] at order
  exact (List.cons.inj order).2

/-- Without the first element the others are in line, whatever the values are that were found so far. -/
theorem without {later : World} (ready : later.ready = outer ++ others.map fan.strandOf)
    (fresh : world.fresh ≤ later.fresh) (done : List (Nat × Value)) :
    Fan.Lined { fan with done, running := fan.running.filter fun other => other.1 ≠ element.1 } later outer rest where
  order := (congrArg (· ++ _) (lined.reverse_filter_running running)).trans (lined.order_cons running)
  positive := lined.positive
  distinct := (List.nodup_cons.mp (List.map_cons ▸ lined.distinct)).2
  ready := ready.trans (congrArg (fun elements => outer ++ elements.map fan.strandOf)
    (lined.reverse_filter_running running).symm)
  foreign := lined.foreign
  numbered := lined.numbered.trans_le fresh
  tidy id position member := (lined.tidy id position member).trans_le fresh

end Rest

/-- With the strands of a collection forgotten, those are left that were woken before it began. -/
theorem filter_foreign (lined : fan.Lined world outer pending) (elements : List (Nat × Task)) :
    ((outer ++ elements.map fan.strandOf).filter fun strand => !strand.isElementOf fan.id) = outer := by
  have own : ((elements.map fan.strandOf).filter fun strand => !strand.isElementOf fan.id) = [] := by
    rw [List.filter_eq_nil_iff]
    intro strand member
    obtain ⟨other, _, rfl⟩ := List.mem_map.mp member
    simp [Fan.strandOf, Strand.isElementOf]
  rw [List.filter_append, own, List.append_nil, List.filter_eq_self]
  simpa using lined.foreign

end Fan.Lined

namespace Routine

variable {entries : List (Key × Entry)}

/-- Where no elements are left, the values are what a collection comes to. -/
theorem runFan_nil {outer : List Strand} {fan : Fan Task} {world : World} (lined : fan.Lined world outer [])
    (machine : Machine) :
    machine.runFan fan world = (machine.finish (.ok (.list fan.refill.values)), fan.launched world) ∧
      (fan.launched world).ready = outer := by
  have filled := lined.refill
  have idle : fan.refill.running = [] := by simpa using (List.append_eq_nil_iff.mp filled.order).1
  refine ⟨?_, by simp [filled.ready, idle]⟩
  show machine.nextElement fan.refill _ (fan.launched world) = _
  unfold Machine.nextElement
  simp [filled.nextElement?_nil, idle]

/-- The first of the elements that are left is looked at, and the collection stays around it without that element. -/
theorem runFan_cons {outer : List Strand} {element : Nat × Task} {rest others : List (Nat × Task)} {fan : Fan Task}
    {world : World} (lined : fan.Lined world outer (element :: rest))
    (running : fan.refill.running.reverse = element :: others) (machine : Machine) :
    machine.runFan fan world =
      (look element.2).within
        (.fanning { fan.refill with running := fan.refill.running.filter fun other => other.1 ≠ element.1 } element.1
          ⟨fan.refill.running.length, 0, 0⟩) machine
        { fan.launched world with ready := outer ++ others.map fan.refill.strandOf } := by
  have filled := lined.refill
  show machine.nextElement fan.refill _ (fan.launched world) = _
  unfold Machine.nextElement
  simp [filled.nextElement?_cons running, filled.get?_running running, within, look, Machine.poll, Machine.pollWithin]

/-- A collection is gone through in order. -/
theorem runFan_leads {outer : List Strand} {pending : List (Nat × Task)} {expected : List (List ResolveError)}
    (each : List.Forall₂ (fun element failures => (look element.2).Settles entries failures) pending expected)
    (traceless : ∀ element ∈ pending, element.2.Traceless) {fan : Fan Task} {world : World}
    (lined : fan.Lined world outer pending) (same : world.registry.entries = entries) (machine : Machine) :
    ∃ result later, Machine.Leads (machine.runFan fan world) (machine.finish result, later) ∧
      (later.registry.entries = entries ∧ later.ready = outer ∧ world.fresh ≤ later.fresh) ∧
      Verdict expected.flatten result := by
  induction each generalizing fan world machine with
  | nil =>
    obtain ⟨ends, ready⟩ := runFan_nil lined machine
    refine ⟨.ok (.list fan.refill.values), fan.launched world, ?_, ⟨same, ready, Nat.le_refl _⟩, rfl⟩
    rw [ends]
    exact .refl
  | @cons element failures rest expected first each ih =>
    have filled := lined.refill
    obtain ⟨others, running⟩ := lined.running_refill
    -- the fan without the element that is looked at, which is all that the rest is about
    let left : Fan Task := { fan.refill with running := fan.refill.running.filter fun other => other.1 ≠ element.1 }
    let inner : World := { fan.launched world with ready := outer ++ others.map fan.refill.strandOf }
    have tidy : inner.Tidy := (filled.without running (rfl : inner.ready = _) (Nat.le_refl _) []).worldTidy
    obtain ⟨result, between, leads, passes, verdict⟩ := first
      { machine with layers := .fanning left element.1 ⟨fan.refill.running.length, 0, 0⟩ :: machine.layers } inner same
      tidy
    have untraced := fun other member => traceless other (List.mem_cons_of_mem element member)
    rw [runFan_cons lined running, List.flatten_cons]
    cases result with
    | ok value =>
      obtain ⟨last, later, further, ⟨kept, restored, fresh⟩, final⟩ := ih untraced
        (filled.without running passes.ready passes.fresh (fan.refill.done ++ [(element.1, value)]))
        (passes.entries.trans same) (machine.finish (.ok value))
      -- the element has not been woken again, so that there is no strand of it to be forgotten
      have still : between.ready.erase (.element left.id element.1) = between.ready := by
        rw [passes.ready]
        exact List.erase_of_not_mem (filled.strandOf_not_mem running)
      refine ⟨last, later, leads.trans (.head ?_ further), ⟨kept, restored, passes.fresh.trans fresh⟩,
        Verdict.append final verdict⟩
      simp [Machine.step, Machine.finish, Machine.finishIn, still, left]
    | error error =>
      have dropped : between.cancelElements left.running = between := by
        refine cancelElements_traceless (fun other member => untraced other ?_) between
        rw [← filled.order_cons running, ← filled.reverse_filter_running running]
        exact List.mem_append_left _ (List.mem_reverse.mpr member)
      have fails : Machine.failIn (.fanning left element.1 ⟨fan.refill.running.length, 0, 0⟩) between =
          { between with ready := outer } := by
        rw [Machine.failIn, dropped, World.forget, passes.ready]
        exact congrArg (fun ready => { between with ready }) (filled.filter_foreign others)
      exact ⟨.error error, _, leads.tail (congrArg (fun later => some (_, later)) fails),
        ⟨passes.entries.trans same, rfl, passes.fresh⟩, Verdict.left verdict⟩

/-- Numbered items agree if they do so one by one. -/
theorem forall₂_mapIdx {α β γ : Type} {agree : β → γ → Prop} {items : List α} {left : Nat → α → β} {right : Nat → α → γ}
    (each : ∀ position item, items[position]? = some item → agree (left position item) (right position item)) :
    List.Forall₂ agree (items.mapIdx left) (items.mapIdx right) := by
  induction items generalizing left right with
  | nil => exact .nil
  | cons item rest ih =>
    rw [List.mapIdx_cons, List.mapIdx_cons]
    exact .cons (each 0 item rfl) (ih fun position other found => each (position + 1) other found)

/-- A collection that begins with none of its elements started. -/
theorem settles_collection (limit : Nat) {tasks : List Task} {expected : List (List ResolveError)}
    (each : List.Forall₂ (fun task failures => (look task).Settles entries failures) tasks expected)
    (unstarted : ∀ task ∈ tasks, task.Unstarted) :
    Settles entries (fun machine world => look (.fan (.ofTasks world.take.1 limit tasks)) machine world.take.2)
      expected.flatten := by
  intro machine world same tidy
  have numbered : List.Forall₂ (fun element failures => (look element.2).Settles entries failures)
      (tasks.mapIdx fun position task => (position, task)) expected := by
    have tasks_eq : (tasks.mapIdx fun position task => (position, task)).map (·.2) = tasks := by
      apply List.ext_getElem <;> simp
    rw [← tasks_eq] at each
    exact (@List.forall₂_map_left_iff _ _ _
      (fun task failures => (look task).Settles entries failures) Prod.snd _ _).mp each
  have lined : (Fan.ofTasks world.take.1 limit tasks).Lined world.take.2 world.ready
      (tasks.mapIdx fun position task => (position, task)) :=
    { order := rfl
      positive := Nat.le_max_right _ _
      distinct := by rw [Machine.ofTasks_positions]; exact List.nodup_range
      ready := by simp [Fan.ofTasks, World.take]
      foreign := fun strand member => by
        cases strand with
        | operation id => rfl
        | element id position => simpa [Fan.ofTasks, World.take, Strand.isElementOf] using (tidy id position member).ne
      numbered := Nat.lt_succ_self _
      tidy := fun id position member => (tidy id position member).trans (Nat.lt_succ_self _) }
  have traceless : ∀ element ∈ tasks.mapIdx fun position task => (position, task), element.2.Traceless := by
    intro element member
    obtain ⟨position, inside, rfl⟩ := List.mem_mapIdx.mp member
    exact (unstarted _ (List.getElem_mem inside)).traceless
  let fan := Fan.ofTasks world.take.1 limit tasks
  obtain ⟨result, later, leads, ⟨kept, ready, fresh⟩, verdict⟩ :=
    runFan_leads numbered traceless lined same (machine.poll (.fan fan))
  exact ⟨result, later, .head rfl leads, ⟨kept.trans same.symm, ready, (Nat.le_succ _).trans fresh⟩, verdict⟩

end Routine

end Collections

end Blueprint
