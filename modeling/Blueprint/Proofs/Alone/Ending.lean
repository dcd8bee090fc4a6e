import Blueprint.Proofs.Alone.Rounds
import Blueprint.Proofs.Guards
import Blueprint.Proofs.System.Execution
/-! An operation that is alone comes to an end, or it comes to wait with no timer set and is never called again.
Every look is finite, and every round uses up something of what is left to do or to wake. -/

namespace Blueprint

open Relation

namespace System

variable {before after system : System} {action : Action}

/-- The operations agree with the registry, the clock and the queues, and what they do flows where it should. Every
state that can be reached is like this, and so is a registry that others have left with nothing going on. -/
structure Regular (system : System) : Prop where
  orderly : system.Orderly
  alert : system.Alert
  flowing : system.Every fun contents call => Blueprint.flowing (contents.Free call)

theorem Reachable.regular (reachable : system.Reachable) : system.Regular :=
  ⟨reachable.orderly, reachable.alert, reachable.flowing⟩

theorem Regular.act (regular : before.Regular) (result : before.act? action = some after) : after.Regular :=
  have acts := act?_acts result
  ⟨(acts.orderly regular.orderly).1, acts.alert regular.orderly regular.alert,
    acts.every flowing_lasting regular.orderly regular.flowing⟩

theorem Run.regular {allowed : Action → Prop} (run : Run allowed before after) (regular : before.Regular) :
    after.Regular := by
  induction run with
  | refl => exact regular
  | tail _ step ih =>
    obtain ⟨action, _, result⟩ := step
    exact ih.act result

/-- What was registered and what has become of it, with nothing going on and the clock at zero. -/
def resting (contents : Contents) (registry : Registry) : System := ⟨contents, .initial registry, []⟩

/-- With nobody at work the registry holds no claims, whatever the numbers of the world are. -/
theorem Regular.resting_of_idle (regular : system.Regular) (idle : system.Idle) :
    (resting system.registered system.world.registry).Regular where
  orderly := by
    have ledger := regular.orderly.ledger
    rw [idle.holds] at ledger
    exact ⟨{ ledger with issued := fun ticket member => absurd member (Multiset.notMem_zero ticket) },
      fun process member => absurd member List.not_mem_nil⟩
  alert := by
    refine ⟨⟨Multiset.nodup_zero, fun number member => absurd member (Multiset.notMem_zero number),
      fun key waiter member => ?_, fun timer member => absurd member List.not_mem_nil,
      fun chain id due member => absurd member (Multiset.notMem_zero _)⟩, fun id process present => by cases present⟩
    have marked := regular.alert.watched.waiters key waiter member
    obtain ⟨process, listed, own⟩ := mem_marks_sum.mp marked
    have ended := idle process listed
    cases phase : process.phase with
    | resting operation | looking operation machine => simp [phase, Phase.Ended] at ended
    | returned result | dropped => simp [phase, Phase.marks] at own
  flowing process member := absurd member List.not_mem_nil

/-- One operation and nothing else. -/
def solo (contents : Contents) (call : Call) (phase : Phase) (world : World) : System :=
  ⟨contents, world, [⟨call, phase⟩]⟩

section Solo

variable {contents : Contents} {call : Call} {phase : Phase} {operation rested : Operation}
  {machine next : Machine} {world between later : World}

theorem act?_start (config : Config) (node : Node) (registry : Registry) :
    (resting contents registry).act? (.start (.resolve config node)) =
      some (solo contents (.resolve config node)
        (.looking (Operation.resolve 0 config node (.initial registry))
          (.start 0 (Operation.resolve 0 config node (.initial registry)).task)) (.initial registry)) := rfl

theorem act?_step (step : machine.step world = some (next, later)) :
    (solo contents call (.looking operation machine) world).act? (.step 0) =
      some (solo contents call (.looking operation next) later) := by
  simp [act?, solo, phase?, step, become]

theorem act?_conclude (ended : machine.step world = none) :
    (solo contents call (.looking operation machine) world).act? (.step 0) =
      some (solo contents call (.of (operation.conclude machine world).1) (operation.conclude machine world).2) := by
  simp [act?, solo, phase?, ended, become]

theorem act?_look :
    (solo contents call (.resting operation) world).act? (.look 0) =
      some (solo contents call (.looking operation (.start 0 operation.task)) (attended world 0)) := rfl

theorem act?_advance {time : Nat} (forward : world.now ≤ time) :
    (solo contents call phase world).act? (.advance time) = some (solo contents call phase (world.advanceTo time)) := by
  simp [act?, solo, forward]

end Solo

/-- How far looks still have to go. -/
noncomputable def trips (system : System) : Nat :=
  (system.processes.map fun process =>
    match process.phase with
    | .looking _ machine => machine.trip + 1
    | .resting _ | .returned _ | .dropped => 0).sum

/-- What is left: what is still to be done, what may still be woken, and how far looks still have to go. -/
noncomputable def left (system : System) : Nat ×ₗ Nat ×ₗ Nat :=
  toLex (system.weight, toLex (system.pressure, system.trips))

theorem left_lt (eases : Eases action before after)
    (trips : Stays action before after → after.trips < before.trips) : after.left < before.left := by
  rw [left, left, Prod.Lex.toLex_lt_toLex]
  rcases eases with lighter | ⟨weight, calmer | ⟨pressure, stays⟩⟩
  · exact .inl lighter
  all_goals
    refine weight.lt_or_eq.imp_right fun same => ⟨same, ?_⟩
    rw [Prod.Lex.toLex_lt_toLex]
  · exact .inl calmer
  · exact pressure.lt_or_eq.imp_right fun same => ⟨same, trips stays⟩

/-- After an action that cannot leave all as it was, something else than the way of looks is less. -/
theorem left_lt_of_changed {last : System} (eases : Eases action before after)
    (changed : ¬ Stays action before after)
    (weight : last.weight < after.weight ∨ last.weight ≤ after.weight ∧ last.pressure ≤ after.pressure) :
    last.left < before.left := by
  rw [left, left, Prod.Lex.toLex_lt_toLex, Prod.Lex.toLex_lt_toLex]
  rcases eases with lighter | ⟨light, calmer | ⟨_, stays⟩⟩
  · exact .inl (by omega)
  · omega
  · exact absurd stays changed

section Ending

variable {contents : Contents} {call : Call} {operation rested : Operation} {machine : Machine}
  {world between next later : World}

/-- A step of a look leaves less of it to go. -/
theorem Regular.step_left {phase : Phase}
    (regular : (solo contents call (.looking operation machine) world).Regular)
    (result : (solo contents call (.looking operation machine) world).act? (.step 0) =
      some (solo contents call phase later)) :
    (solo contents call phase later).left < (solo contents call (.looking operation machine) world).left := by
  refine left_lt ((act?_acts result).eases regular.orderly regular.alert trivial fun _ => by simp) fun stays => ?_
  obtain ⟨phase', present, kept⟩ := stays.each 0 _ rfl
  cases present
  cases kept with
  | alone _ step => exact absurd rfl step
  | steps _ _ _ nearer => simpa [trips, solo] using nearer
  | rests => simp [trips, solo]

/-- A look comes to its end. -/
theorem Regular.look_ends (regular : (solo contents call (.looking operation machine) world).Regular) :
    ∃ fuel last between, machine.run fuel world = some (last, between) ∧
      Run Action.Continues (solo contents call (.looking operation machine) world)
        (solo contents call (.looking operation last) between) ∧
      (solo contents call (.looking operation last) between).left ≤
        (solo contents call (.looking operation machine) world).left := by
  generalize before : (solo contents call (.looking operation machine) world).left = left
  induction left using WellFoundedLT.induction generalizing machine world with
  | _ left ih =>
    cases step : machine.step world with
    | none => exact ⟨1, machine, world, by simp [Machine.run, step], .refl, before.le⟩
    | some result =>
      obtain ⟨next, later⟩ := result
      have acts : (solo contents call (.looking operation machine) world).act? (.step 0) = some _ := act?_step step
      have less := before ▸ regular.step_left acts
      obtain ⟨fuel, last, between, run, way, le⟩ := ih _ less (regular.act acts) rfl
      exact ⟨fuel + 1, last, between, by simp [Machine.run, step, run], .head ⟨.step 0, trivial, acts⟩ way,
        le.trans less.le⟩

/-- A look at an operation comes to its end, and the operation waits or is over. -/
theorem Regular.sees (regular : (solo contents call (.looking operation (.start 0 operation.task)) world).Regular) :
    ∃ progress between, operation.Sees world progress between ∧ progress ≠ .stopped ∧
      Run Action.Continues (solo contents call (.looking operation (.start 0 operation.task)) world)
        (solo contents call (.of progress) between) ∧
      (solo contents call (.of progress) between).left <
        (solo contents call (.looking operation (.start 0 operation.task)) world).left := by
  obtain ⟨fuel, last, between, run, way, le⟩ := regular.look_ends
  have ended := Machine.step_of_run run
  have acts : (solo contents call (.looking operation last) between).act? (.step 0) = some _ := act?_conclude ended
  have named : operation.id = 0 := (regular.alert.each 0 _ rfl).1
  exact ⟨_, _, ⟨fuel, last, between, named ▸ run, rfl⟩, Operation.conclude_ne_stopped ended,
    way.tail ⟨.step 0, trivial, acts⟩, ((way.regular regular).step_left acts).trans_le le⟩

/-- What a look comes to, it comes to among the runs of a system, with less left. -/
theorem Regular.run_of_sees {progress : Operation.Progress}
    (regular : (solo contents call (.looking operation (.start 0 operation.task)) world).Regular)
    (sees : operation.Sees world progress between) :
    Run Action.Continues (solo contents call (.looking operation (.start 0 operation.task)) world)
        (solo contents call (.of progress) between) ∧
      (solo contents call (.of progress) between).left <
        (solo contents call (.looking operation (.start 0 operation.task)) world).left := by
  obtain ⟨_, _, seen, _, way⟩ := regular.sees
  obtain ⟨rfl, rfl⟩ := sees.unique seen
  exact way

/-- An operation that waits, alone, and is called is looked at again; that is so at once, or time goes on to the
next timer. -/
theorem called_cases (called : rested.called? between = some next) (named : rested.id = 0) :
    (.operation 0 ∈ between.ready ∧ next = attended between 0) ∨
      ∃ due, between.nextDue? = some due ∧ next = attended (between.advanceTo due) 0 := by
  unfold Operation.called? at called
  rw [named] at called
  dsimp only at called
  split at called
  next ready => exact .inl ⟨ready, (Option.some.inj called).symm⟩
  next =>
    obtain ⟨due, found, same⟩ := Option.map_eq_some_iff.mp called
    exact .inr ⟨due, found, same.symm⟩

/-- An operation that waits, alone, and is never called again is not called now, and no timer is set. -/
theorem silent_of_called? (never : rested.called? between = none) (named : rested.id = 0) :
    .operation 0 ∉ between.ready ∧ between.timers = [] := by
  unfold Operation.called? at never
  rw [named] at never
  dsimp only at never
  split at never
  next => cases never
  next absent => exact ⟨absent, by simpa [World.nextDue?] using never⟩

/-- The next timer is set, and no earlier one. -/
theorem nextDue?_eq_some {due : Nat} (found : world.nextDue? = some due) :
    (∃ timer ∈ world.timers, timer.due = due) ∧ ∀ timer ∈ world.timers, due ≤ timer.due := by
  obtain ⟨member, least⟩ := List.min?_eq_some_iff.mp found
  obtain ⟨timer, listed, same⟩ := List.mem_map.mp member
  exact ⟨⟨timer, listed, same⟩, fun other inside => least _ (List.mem_map_of_mem inside)⟩

/-- An operation that waits and is called goes on, with less left. -/
theorem Regular.resumes (regular : (solo contents call (.resting rested) between).Regular)
    (called : rested.called? between = some next) :
    Run Action.Continues (solo contents call (.resting rested) between)
        (solo contents call (.looking rested (.start 0 rested.task)) next) ∧
      (solo contents call (.looking rested (.start 0 rested.task)) next).left <
        (solo contents call (.resting rested) between).left := by
  have named : rested.id = 0 := (regular.alert.each 0 _ rfl).1
  rcases called_cases called named with ⟨ready, rfl⟩ | ⟨due, found, rfl⟩
  · have acts : (solo contents call (.resting rested) between).act? (.look 0) = some _ := act?_look
    refine ⟨.single ⟨.look 0, trivial, acts⟩, ?_⟩
    have eases := (act?_acts acts).eases regular.orderly regular.alert trivial fun _ => by simp
    refine left_lt_of_changed eases (fun stays => ?_) (.inr ⟨le_refl _, le_refl _⟩)
    obtain ⟨phase, present, kept⟩ := stays.each 0 _ rfl
    obtain ⟨number, task, deadline, whole⟩ := rested
    cases named
    cases present
    cases kept with
    | looks _ silent => exact silent ready
  · obtain ⟨⟨timer, listed, same⟩, _⟩ := nextDue?_eq_some found
    have forward : between.now ≤ due := same ▸ (regular.alert.watched.timers timer listed).2.le
    have passes : (solo contents call (.resting rested) between).act? (.advance due) = some _ := act?_advance forward
    have later := regular.act passes
    have acts : (solo contents call (.resting rested) (between.advanceTo due)).act? (.look 0) = some _ := act?_look
    refine ⟨.head ⟨.advance due, trivial, passes⟩ (.single ⟨.look 0, trivial, acts⟩), ?_⟩
    have eases := (act?_acts passes).eases regular.orderly regular.alert trivial fun _ => by simp
    refine left_lt_of_changed eases (fun stays => ?_) ?_
    · -- the timer that was due is not set any more
      have kept : timer ∈ (between.advanceTo due).timers := stays.timers ▸ listed
      rw [World.advanceTo_eq] at kept
      simp [same] at kept
    · rcases (act?_acts acts).eases later.orderly later.alert trivial fun _ => by simp with
        lighter | ⟨light, calmer | ⟨calm, _⟩⟩
      · exact .inl lighter
      · exact .inr ⟨light, calmer.le⟩
      · exact .inr ⟨light, calm⟩

/-- What holds of an operation that is about to be looked at, alone, if it holds of it after the next round. -/
theorem Regular.rounds {holds : Operation → World → Prop}
    (round : ∀ operation world,
      (solo contents call (.looking operation (.start 0 operation.task)) world).Regular →
      (∀ rested between next, operation.Sees world (.waiting rested) between → rested.called? between = some next →
        (solo contents call (.looking rested (.start 0 rested.task)) next).Regular → holds rested next) →
      holds operation world)
    (regular : (solo contents call (.looking operation (.start 0 operation.task)) world).Regular) :
    holds operation world := by
  generalize before : (solo contents call (.looking operation (.start 0 operation.task)) world).left = left
  induction left using WellFoundedLT.induction generalizing operation world with
  | _ left ih =>
    refine round operation world regular fun rested between next sees called later => ih _ ?_ later rfl
    obtain ⟨way, less⟩ := regular.run_of_sees sees
    exact before ▸ ((way.regular regular).resumes called).2.trans less

/-- An operation that is alone comes to an end, or it comes to wait where it is never called again. -/
theorem Regular.ends (regular : (solo contents call (.looking operation (.start 0 operation.task)) world).Regular) :
    (∃ result later, operation.Comes world result later) ∨
      ∃ rested between, Run Action.Continues
        (solo contents call (.looking operation (.start 0 operation.task)) world)
        (solo contents call (.resting rested) between) ∧ rested.called? between = none := by
  refine @Regular.rounds contents call operation world (fun operation world =>
    (∃ result later, operation.Comes world result later) ∨
    ∃ rested between, Run Action.Continues
      (solo contents call (.looking operation (.start 0 operation.task)) world)
      (solo contents call (.resting rested) between) ∧ rested.called? between = none) ?_ regular
  intro operation world regular ih
  obtain ⟨progress, between, sees, goes, way, _⟩ := regular.sees
  rcases progress with rested | result | _
  · cases called : rested.called? between with
    | none => exact .inr ⟨rested, between, way, called⟩
    | some next =>
      have resumes := (way.regular regular).resumes called
      rcases ih rested between next sees called (resumes.1.regular (way.regular regular)) with
        ⟨result, later, comes⟩ | ⟨last, rests, further, silent⟩
      · exact .inl ⟨result, later, .again sees called comes⟩
      · exact .inr ⟨last, rests, (way.trans resumes.1).trans further, silent⟩
  · exact .inl ⟨result, between, .done sees⟩
  · exact absurd rfl goes

/-- What an operation comes to alone, it comes to among the runs of a system. -/
theorem Regular.run_of_comes {result : Except ResolveError Value}
    (regular : (solo contents call (.looking operation (.start 0 operation.task)) world).Regular)
    (comes : operation.Comes world result later) :
    Run Action.Continues (solo contents call (.looking operation (.start 0 operation.task)) world)
      (solo contents call (.returned result) later) := by
  induction comes with
  | done sees => exact (regular.run_of_sees sees).1
  | again sees called rest ih =>
    have way := (regular.run_of_sees sees).1
    have resumes := (way.regular regular).resumes called
    exact (way.trans resumes.1).trans (ih (resumes.1.regular (way.regular regular)))

end Ending

end System

end Blueprint
