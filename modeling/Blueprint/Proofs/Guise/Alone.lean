import Blueprint.Proofs.Alone.Rounds
import Blueprint.Proofs.Guise.Machine
import Blueprint.Proofs.System.Alert
/-! An operation that is alone comes to the same result in every guise in which the numbers of the two worlds
correspond throughout and neither has timers of its own. -/

namespace Blueprint

open World (Alike)

theorem Guise.wakeEach (guise : Guise) (ready : List Strand) (chains : List (List Strand)) :
    Strand.wakeEach (ready.map guise.strand) (chains.map (List.map guise.strand)) =
      (Strand.wakeEach ready chains).map guise.strand := by
  induction chains generalizing ready with
  | nil => rfl
  | cons chain rest ih =>
    simp only [List.map_cons, Strand.wakeEach, List.foldl_cons] at ih ⊢
    rw [guise.wake]
    exact ih _

namespace World.Alike

variable {guise : Guise} {lag time : Nat} {one two : World}

/-- The operation as a whole is called in both worlds or in neither. -/
theorem heard (alike : Alike guise lag one two) (id : Nat) :
    .operation id ∈ two.ready ↔ .operation id ∈ one.ready := by
  rw [alike.ready]
  refine ⟨fun inside => ?_, fun inside => List.mem_map_of_mem (f := guise.strand) inside⟩
  obtain ⟨strand, member, same⟩ := List.mem_map.mp inside
  cases strand with
  | operation id => exact same ▸ member
  | element => cases same

/-- While no timer is due that the first world does not have, the same timers wake the same sleepers. -/
theorem fired (alike : Alike guise lag one two)
    (foreign : ∀ timer ∈ two.timers, guise.own timer.id = false → time < timer.due) :
    two.fired time = (one.fired time).map guise.timer := by
  have due : two.timers.filter (fun timer => timer.due ≤ time) =
      (one.timers.filter fun timer => timer.due ≤ time).map guise.timer := by
    have own : two.timers.filter (fun timer => timer.due ≤ time) =
        (two.timers.filter fun timer => guise.own timer.id).filter fun timer => timer.due ≤ time := by
      rw [List.filter_filter]
      refine List.filter_congr fun timer member => ?_
      cases ours : guise.own timer.id with
      | true => simp
      | false => simpa using foreign timer member ours
    rw [own, alike.timers, List.filter_map]
    rfl
  unfold World.fired
  rw [due]
  exact (@List.map_mergeSort _ _ _ _ guise.timer _ fun first _ second _ => rfl).symm

theorem advanceTo (alike : Alike guise lag one two)
    (foreign : ∀ timer ∈ two.timers, guise.own timer.id = false → time < timer.due) :
    Alike guise lag (one.advanceTo time) (two.advanceTo time) := by
  rw [World.advanceTo_eq, World.advanceTo_eq, alike.fired foreign]
  refine { alike with now := rfl, timers := ?_, ready := ?_ }
  · dsimp only
    rw [List.filter_comm, alike.timers, List.filter_map]
    rfl
  · have chains := guise.wakeEach one.ready ((one.fired time).map Timer.strands)
    rw [List.map_map] at chains ⊢
    exact alike.ready ▸ chains

theorem announce (alike : Alike guise lag one two) (whole : Bool) (result : Except ResolveError Value) :
    Alike guise lag (Operation.announce whole result one) (Operation.announce whole result two) := by
  unfold Operation.announce
  split
  · cases result with
    | ok value => exact alike.emit .resolved
    | error error => exact alike.emit (.failed error)
  · exact alike

end World.Alike

namespace Guise

variable (guise : Guise)

def deadline (deadline : Deadline) : Deadline :=
  { deadline with timer := deadline.timer.map guise.number }

def operation (operation : Operation) : Operation :=
  { operation with task := guise.task operation.task, deadline := operation.deadline.map guise.deadline }

def progress : Operation.Progress → Operation.Progress
  | .waiting operation => .waiting (guise.operation operation)
  | .over result => .over result
  | .stopped => .stopped

/-- Every number corresponds to the one so much later, and no timer is foreign. -/
structure Aligned (lag : Nat) : Prop where
  number : ∀ number, guise.number number = number + lag
  own : ∀ id, guise.own id = true

end Guise

namespace World.Alike

variable {guise : Guise} {lag : Nat} {one two : World}

theorem close (operation : Operation) (result : Except ResolveError Value) (alike : Alike guise lag one two) :
    Alike guise lag (operation.close result one).2 ((guise.operation operation).close result two).2 := by
  obtain ⟨id, task, deadline, whole⟩ := operation
  refine World.Alike.announce ?_ whole result
  cases deadline with
  | none => exact alike
  | some deadline =>
    obtain ⟨length, due, timer⟩ := deadline
    cases timer with
    | none => exact alike
    | some timer => exact alike.dropTimer timer

theorem watch (aligned : guise.Aligned lag) (operation : Operation) (alike : Alike guise lag one two) :
    ((guise.operation operation).watch two).1 = guise.progress (operation.watch one).1 ∧
      Alike guise lag (operation.watch one).2 ((guise.operation operation).watch two).2 := by
  obtain ⟨id, task, deadline, whole⟩ := operation
  cases deadline with
  | none => exact ⟨rfl, alike⟩
  | some deadline =>
    obtain ⟨length, due, timer⟩ := deadline
    simp only [Operation.watch, Guise.operation, Option.map_some, Guise.deadline, alike.now]
    by_cases late : due ≤ one.now
    · simp only [if_pos late]
      exact ⟨rfl, (alike.cancel task).close ⟨id, task, some ⟨length, due, timer⟩, whole⟩ _⟩
    · simp only [if_neg late]
      cases timer with
      | some timer => exact ⟨rfl, alike⟩
      | none =>
        have set := alike.setTimer (aligned.number _) due [.operation id]
        refine ⟨?_, set.2⟩
        exact congrArg (fun timer => Operation.Progress.waiting
          ⟨id, guise.task task, some ⟨length, due, some timer⟩, whole⟩) set.1

theorem conclude (aligned : guise.Aligned lag) (operation : Operation) (machine : Machine)
    (alike : Alike guise lag one two) :
    ((guise.operation operation).conclude (guise.machine machine) two).1 =
        guise.progress (operation.conclude machine one).1 ∧
      Alike guise lag (operation.conclude machine one).2
        ((guise.operation operation).conclude (guise.machine machine) two).2 := by
  obtain ⟨number, control, layers⟩ := machine
  cases layers with
  | cons => cases control <;> exact ⟨rfl, alike⟩
  | nil =>
    cases control with
    | poll => exact ⟨rfl, alike⟩
    | rest task => exact alike.watch aligned { operation with task }
    | finish result => exact ⟨rfl, alike.close operation result⟩

/-- A look at an operation is a look at its other form. -/
theorem sees (aligned : guise.Aligned lag) {operation : Operation} {progress : Operation.Progress} {later : World}
    (alike : Alike guise lag one two) (sees : operation.Sees one progress later) :
    ∃ last, (guise.operation operation).Sees two (guise.progress progress) last ∧ Alike guise lag later last := by
  obtain ⟨fuel, machine, between, run, concludes⟩ := sees
  obtain ⟨other, same, worlds⟩ := Machine.run_reflects alike run fun number _ _ => aligned.number number
  have ends := worlds.conclude aligned operation machine
  rw [concludes] at ends
  exact ⟨_, ⟨fuel, guise.machine machine, other, same, Prod.ext ends.1 rfl⟩, ends.2⟩

theorem nextDue? (aligned : guise.Aligned lag) (alike : Alike guise lag one two) : two.nextDue? = one.nextDue? := by
  have timers : two.timers = one.timers.map guise.timer := by
    rw [← alike.timers, List.filter_eq_self.mpr fun timer _ => aligned.own timer.id]
  rw [World.nextDue?, World.nextDue?, timers, List.map_map]
  rfl

theorem called (aligned : guise.Aligned lag) {operation : Operation} {next : World} (alike : Alike guise lag one two)
    (called : operation.called? one = some next) :
    ∃ last, (guise.operation operation).called? two = some last ∧ Alike guise lag next last := by
  unfold Operation.called? at called ⊢
  simp only [Guise.operation, alike.heard, alike.nextDue? aligned] at called ⊢
  split at called
  next ready =>
    cases called
    rw [if_pos ready]
    exact ⟨_, rfl, alike.erase (.operation operation.id)⟩
  next silent =>
    rw [if_neg silent]
    obtain ⟨due, found, rfl⟩ := Option.map_eq_some_iff.mp called
    rw [found]
    have later : Alike guise lag (one.advanceTo due) (two.advanceTo due) :=
      alike.advanceTo fun timer _ foreign => by simp [aligned.own] at foreign
    exact ⟨_, rfl, later.erase (.operation operation.id)⟩

/-- What an operation comes to alone, its other form comes to. -/
theorem comes (aligned : guise.Aligned lag) {operation : Operation} {result : Except ResolveError Value}
    {later : World} (alike : Alike guise lag one two) (comes : operation.Comes one result later) :
    ∃ last, (guise.operation operation).Comes two result last ∧ Alike guise lag later last := by
  induction comes generalizing two with
  | done sees =>
    obtain ⟨last, seen, worlds⟩ := alike.sees aligned sees
    exact ⟨last, .done seen, worlds⟩
  | again sees called _ ih =>
    obtain ⟨between, seen, worlds⟩ := alike.sees aligned sees
    obtain ⟨next, again, worlds⟩ := worlds.called aligned called
    obtain ⟨last, goes, worlds⟩ := ih worlds
    exact ⟨last, .again seen again goes, worlds⟩

end World.Alike

end Blueprint
