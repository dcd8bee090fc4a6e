import Blueprint.Proofs.Guise.Alone
import Blueprint.Proofs.Registration
/-! Operations that share a registry, in another guise. What is possible among the ones is possible among the others,
and both go on alike. -/

namespace Blueprint

namespace Guise

variable (guise : Guise)

def call : Call → Call
  | .resolve config node => .resolve (guise.config config) node
  | .within scope work => .within (guise.scope scope) work

def phase : Phase → Phase
  | .resting operation => .resting (guise.operation operation)
  | .looking operation machine => .looking (guise.operation operation) (guise.machine machine)
  | .returned result => .returned result
  | .dropped => .dropped

def process (process : Process) : Process := ⟨guise.call process.call, guise.phase process.phase⟩

def action : Action → Action
  | .start call => .start (guise.call call)
  | other => other

def deed : Deed → Deed
  | .publish config node key => .publish (guise.config config) node key
  | .work action => .work (guise.action action)
  | other => other

theorem call_owner (call : Call) : (guise.call call).scope.owner = call.scope.owner := by
  cases call <;> rfl

theorem phase_of (progress : Operation.Progress) : guise.phase (.of progress) = .of (guise.progress progress) := by
  cases progress <;> rfl

end Guise

namespace World.Alike

variable {guise : Guise} {lag : Nat} {one two : World}

/-- A registration is accepted in both worlds or in neither. -/
theorem register (alike : Alike guise lag one two) (key : Key) {entry : Entry} (bare : guise.entry entry = entry) :
    (two.register key entry).1 = (one.register key entry).1 ∧
      Alike guise lag (one.register key entry).2 (two.register key entry).2 := by
  have contains : two.registry.contains key = one.registry.contains key := by
    rw [Registry.contains, Registry.contains, alike.registry.entries, Option.isSome_map]
  unfold World.register Registry.register
  rw [contains]
  by_cases taken : one.registry.contains key
  · rw [if_pos taken, if_pos taken]
    exact ⟨rfl, alike.emit _⟩
  · rw [if_neg taken, if_neg taken]
    refine ⟨rfl, (alike.with_registry ?_).emit _⟩
    refine ⟨fun other => ?_, alike.registry.waits, alike.registry.hits, alike.registry.initializations⟩
    simp only [Registry.entry?, OrderedMap.get?_append]
    rw [Option.map_or]
    congr 1
    · exact alike.registry.entries other
    · rw [OrderedMap.get?_cons]
      split
      · exact congrArg some bare.symm
      · rfl

/-- Dropping the same operation leaves worlds that agree. -/
theorem drop (alike : Alike guise lag one two) (operation : Operation) :
    Alike guise lag (operation.cancel one) ((guise.operation operation).cancel two) := by
  obtain ⟨id, task, deadline, whole⟩ := operation
  have dropped := alike.cancel task
  cases deadline with
  | none => exact dropped
  | some deadline =>
    obtain ⟨length, due, timer⟩ := deadline
    cases timer with
    | none => exact dropped
    | some timer => exact dropped.dropTimer timer

end World.Alike

theorem Guise.origin_entry (guise : Guise) (key : Key) (origin : Origin) :
    guise.entry (origin.entry key) = origin.entry key := by
  cases origin <;> rfl

namespace System

/-- The same operations, in two guises. -/
structure Alike (guise : Guise) (lag : Nat) (one two : System) : Prop where
  registered : two.registered = one.registered
  world : World.Alike guise lag one.world two.world
  processes : two.processes = one.processes.map guise.process

namespace Alike

variable {guise : Guise} {lag : Nat} {one two : System}

theorem phase? (alike : Alike guise lag one two) (id : Nat) : two.phase? id = (one.phase? id).map guise.phase := by
  rw [System.phase?, System.phase?, alike.processes, List.getElem?_map, Option.map_map, Option.map_map]
  rfl

/-- An operation and its other form go over into the same phase. -/
theorem become (alike : Alike guise lag one two) (id : Nat) (phase : Phase) {first second : World}
    (worlds : World.Alike guise lag first second) :
    Alike guise lag (one.become id phase first) (two.become id (guise.phase phase) second) where
  registered := alike.registered
  world := worlds
  processes := by
    refine List.ext_getElem? fun position => ?_
    simp only [System.become, alike.processes, List.getElem?_map, List.getElem?_modify]
    cases one.processes[position]? with
    | none => split <;> rfl
    | some process => split <;> rfl

/-- The operation of a call and that of its other form. -/
theorem operation (timed : ∀ setting, (guise.config setting).deadline = setting.deadline) (call : Call) (id : Nat)
    {first second : World} (now : second.now = first.now) :
    (guise.call call).operation id second = guise.operation (call.operation id first) := by
  cases call with
  | resolve config node =>
    simp only [Guise.call, Call.operation, Operation.resolve, Guise.operation, timed, now, Option.map_map]
    rfl
  | within scope work => cases work <;> rfl

/-- Where the numbers are the same, worlds differ in nothing but what was told. -/
theorem world_eq (aligned : guise.Aligned 0) (alike : Alike guise 0 one two) (first : one.Orderly)
    (second : two.Orderly) : two.world = { one.world with events := two.world.events } := by
  have numbers : ∀ number, guise.number number = number := aligned.number
  have keys : two.world.registry.entries.map (·.1) = one.world.registry.entries.map (·.1) := by
    rw [second.ledger.keys, first.ledger.keys, alike.registered]
  have registry : two.world.registry = one.world.registry :=
    alike.world.registry.eq keys (first.ledger.keys ▸ first.ledger.distinct) fun _ entry _ =>
      guise.entry_eq numbers entry
  have timers := alike.world.timers
  rw [List.filter_eq_self.mpr fun timer _ => aligned.own timer.id, funext (guise.timer_eq numbers), List.map_id']
    at timers
  have ready := alike.world.ready
  rw [guise.strands_eq numbers] at ready
  have now := alike.world.now
  have fresh := alike.world.fresh
  have starts := alike.world.starts
  generalize two.world = other at *
  obtain ⟨_, _, _, _, _, _, _⟩ := other
  simp_all

/-- A registration is accepted in both or in neither. -/
theorem registers (alike : Alike guise lag one two) (key : Key) (origin : Origin) :
    Option.Rel (Alike guise lag) (one.act? (.register key origin)) (two.act? (.register key origin)) := by
  have both := alike.world.register key (guise.origin_entry key origin)
  simp only [System.act?]
  generalize one.world.register key (origin.entry key) = first at both ⊢
  generalize two.world.register key (origin.entry key) = second at both ⊢
  obtain ⟨accepted, later⟩ := first
  obtain ⟨told, last⟩ := second
  obtain ⟨rfl, worlds⟩ := both
  cases told with
  | ok => exact .some ⟨congrArg (· ++ [(key, origin)]) alike.registered, worlds, alike.processes⟩
  | error => exact .some ⟨alike.registered, worlds, alike.processes⟩

theorem starts (timed : ∀ setting, (guise.config setting).deadline = setting.deadline) (alike : Alike guise lag one two)
    (call : Call) : Option.Rel (Alike guise lag) (one.act? (.start call)) (two.act? (.start (guise.call call))) := by
  have begun := operation timed call one.processes.length alike.world.now
  simp only [System.act?, guise.call_owner, alike.processes, List.length_map, begun]
  split
  · refine .some ⟨alike.registered, alike.world, ?_⟩
    rw [List.map_append]
    rfl
  · exact .none

theorem looks (alike : Alike guise lag one two) (id : Nat) :
    Option.Rel (Alike guise lag) (one.act? (.look id)) (two.act? (.look id)) := by
  simp only [System.act?, alike.phase?]
  cases one.phase? id with
  | none => exact .none
  | some phase =>
    cases phase with
    | resting operation =>
      exact .some (alike.become id (.looking operation (.start id operation.task)) (alike.world.erase (.operation id)))
    | looking | returned | dropped => exact .none

theorem drops (alike : Alike guise lag one two) (id : Nat) :
    Option.Rel (Alike guise lag) (one.act? (.drop id)) (two.act? (.drop id)) := by
  simp only [System.act?, alike.phase?]
  cases one.phase? id with
  | none => exact .none
  | some phase =>
    cases phase with
    | resting operation => exact .some (alike.become id .dropped (alike.world.drop operation))
    | looking | returned | dropped => exact .none

/-- A machine makes a step in both or in neither; if it makes none, the look is over in both. -/
theorem steps (aligned : guise.Aligned lag) (alike : Alike guise lag one two) (id : Nat) :
    Option.Rel (Alike guise lag) (one.act? (.step id)) (two.act? (.step id)) := by
  simp only [System.act?, alike.phase?]
  cases one.phase? id with
  | none => exact .none
  | some phase =>
    cases phase with
    | resting | returned | dropped => exact .none
    | looking operation machine =>
      simp only [Option.map_some, Guise.phase]
      cases step : machine.step one.world with
      | none =>
        have ends := alike.world.conclude aligned operation machine
        rw [Machine.step_ends step]
        simp only [ends.1, ← guise.phase_of]
        exact .some (alike.become id _ ends.2)
      | some result =>
        obtain ⟨next, later⟩ := result
        obtain ⟨last, other, worlds⟩ := Machine.step_reflects alike.world step (.inr (aligned.number _))
        rw [other]
        exact .some (alike.become id (.looking operation next) worlds)

theorem advances (aligned : guise.Aligned lag) (alike : Alike guise lag one two) (time : Nat) :
    Option.Rel (Alike guise lag) (one.act? (.advance time)) (two.act? (.advance time)) := by
  simp only [System.act?, alike.world.now]
  split
  · have later : World.Alike guise lag (one.world.advanceTo time) (two.world.advanceTo time) :=
      alike.world.advanceTo fun timer _ foreign => by simp [aligned.own] at foreign
    exact .some ⟨alike.registered, later, alike.processes⟩
  · exact .none

/-- What one action makes of operations its other form makes of their other forms. -/
theorem act? (aligned : guise.Aligned lag) (timed : ∀ setting, (guise.config setting).deadline = setting.deadline)
    (alike : Alike guise lag one two) (action : Action) :
    Option.Rel (Alike guise lag) (one.act? action) (two.act? (guise.action action)) := by
  cases action with
  | register key origin => exact alike.registers key origin
  | start call => exact alike.starts timed call
  | look id => exact alike.looks id
  | step id => exact alike.steps aligned id
  | drop id => exact alike.drops id
  | advance time => exact alike.advances aligned time

end Alike

end System

/-- Results that are alike are so also after alike changes. -/
theorem rel_map {α β γ δ : Type} {before : α → β → Prop} {after : γ → δ → Prop} {first : Option α} {second : Option β}
    {change : α → γ} {other : β → δ} (alike : Option.Rel before first second)
    (kept : ∀ one two, before one two → after (change one) (other two)) :
    Option.Rel after (first.map change) (second.map other) := by
  cases alike with
  | none => exact .none
  | some same => exact .some (kept _ _ same)

namespace Journal

/-- The same book of attempts, about the same operations in two guises. -/
structure Alike (guise : Guise) (lag : Nat) (one two : Journal) : Prop where
  system : System.Alike guise lag one.system two.system
  insertions : two.insertions = one.insertions
  publications : two.publications = one.publications

namespace Alike

variable {guise : Guise} {lag : Nat} {one two : Journal}

theorem answer (alike : Alike guise lag one two) (index : Nat) (outcome : Except ResolveError Value) :
    Alike guise lag (one.answer index outcome) (two.answer index outcome) :=
  ⟨alike.system, alike.insertions, by simp only [Journal.answer, alike.publications]⟩

variable (aligned : guise.Aligned lag) (timed : ∀ setting, (guise.config setting).deadline = setting.deadline)

include aligned timed

theorem insert? (alike : Alike guise lag one two) (publication : Option Nat) (key : Key) (origin : Origin) :
    Option.Rel (Alike guise lag) (one.insert? publication key origin) (two.insert? publication key origin) := by
  have told := (alike.system.world.register key (guise.origin_entry key origin)).1
  refine rel_map (alike.system.act? aligned timed (.register key origin)) fun first second systems => ?_
  exact ⟨systems, by rw [alike.insertions, told], alike.publications⟩

/-- What a deed makes of one book its other form makes of the other. -/
theorem do? (alike : Alike guise lag one two) (deed : Deed) :
    Option.Rel (Alike guise lag) (one.do? deed) (two.do? (guise.deed deed)) := by
  cases deed with
  | insert key origin => exact alike.insert? aligned timed none key origin
  | publish config node key =>
    simp only [Guise.deed, Journal.do?, alike.insertions, alike.publications, alike.system.processes, List.length_map]
    exact rel_map (alike.system.act? aligned timed (.start (.resolve config node))) fun first second systems =>
      ⟨systems, rfl, rfl⟩
  | conclude index =>
    simp only [Guise.deed, Journal.do?, alike.publications, alike.system.phase?]
    split
    next id key present =>
      cases one.system.phase? id with
      | none => exact .none
      | some phase =>
        cases phase with
        | resting | looking | dropped => exact .none
        | returned result =>
          cases result with
          | error error => exact .some (alike.answer index _)
          | ok value =>
            have told : (two.system.world.register key (.complete ⟨key.type, value⟩)).1 =
                (one.system.world.register key (.complete ⟨key.type, value⟩)).1 :=
              (alike.system.world.register key (guise.origin_entry key (.value value))).1
            have outcome : (two.system.world.publish key (.ok value)).1 =
                (one.system.world.publish key (.ok value)).1 := by
              rw [World.publish_ok, World.publish_ok, told]
            simp only [Option.map_some, Guise.phase, outcome]
            exact rel_map (alike.insert? aligned timed (some index) key (.value value)) fun first second books =>
              books.answer index _
    next => exact .none
  | work action =>
    have works : Option.Rel (Alike guise lag) ((one.system.act? action).map fun system => { one with system })
        ((two.system.act? (guise.action action)).map fun system => { two with system }) :=
      rel_map (alike.system.act? aligned timed action) fun first second systems =>
        ⟨systems, alike.insertions, alike.publications⟩
    cases action with
    | register key origin => exact .none
    | start | look | step | drop | advance => exact works

end Alike

end Journal

end Blueprint
