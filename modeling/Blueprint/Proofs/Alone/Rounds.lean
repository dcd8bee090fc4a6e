import Blueprint.Resolver
/-! An operation that is alone in its world, look by look. Between two looks the world goes on to where the
operation is called again. What the operation comes to does not depend on how long it is followed. -/

namespace Blueprint

/-- Steps that are enough are still enough if more are allowed. -/
theorem Machine.run_mono {machine last : Machine} {world later : World} {fuel more : Nat} (le : fuel ≤ more)
    (run : machine.run fuel world = some (last, later)) : machine.run more world = some (last, later) := by
  induction fuel generalizing machine world more with
  | zero => cases run
  | succ fuel ih =>
    obtain ⟨more, rfl⟩ : ∃ rest, more = rest + 1 := ⟨more - 1, by omega⟩
    rw [Machine.run] at run ⊢
    split at run
    next => exact run
    next => exact ih (by omega) run

/-- Steps are followed until there are none. -/
theorem Machine.step_of_run {machine last : Machine} {world later : World} {fuel : Nat}
    (run : machine.run fuel world = some (last, later)) : last.step later = none := by
  induction fuel generalizing machine world with
  | zero => cases run
  | succ fuel ih =>
    rw [Machine.run] at run
    split at run
    next ended =>
      cases run
      exact ended
    next => exact ih run

namespace Operation

variable {operation rested : Operation} {world between next later : World} {progress : Progress}
  {result : Except ResolveError Value} {steps more fuel : Nat}

/-- A look at an operation comes to some progress. -/
def Sees (operation : Operation) (world : World) (progress : Progress) (later : World) : Prop :=
  ∃ fuel machine between, (Machine.start operation.id operation.task).run fuel world = some (machine, between) ∧
    operation.conclude machine between = (progress, later)

/-- The world in which an operation that waits is looked at again if it is alone: at once if it is called, or
else when the next timer is due. -/
def called? (operation : Operation) (world : World) : Option World :=
  let self := Strand.operation operation.id
  if self ∈ world.ready then some { world with ready := world.ready.erase self }
  else world.nextDue?.map fun due =>
    { world.advanceTo due with ready := (world.advanceTo due).ready.erase self }

/-- What an operation that is alone comes to in the end. -/
inductive Comes : Operation → World → Except ResolveError Value → World → Prop where
  | done {operation : Operation} {world later : World} {result : Except ResolveError Value}
      (sees : operation.Sees world (.over result) later) : Comes operation world result later
  | again {operation rested : Operation} {world between next later : World} {result : Except ResolveError Value}
      (sees : operation.Sees world (.waiting rested) between) (called : rested.called? between = some next)
      (rest : Comes rested next result later) : Comes operation world result later

theorem conclude_ne_stopped {machine : Machine} (ended : machine.step world = none) :
    (operation.conclude machine world).1 ≠ .stopped := by
  obtain ⟨number, control, layers⟩ := machine
  cases control with
  | poll task => cases ended
  | rest task =>
    cases layers with
    | cons => cases ended
    | nil =>
      unfold conclude watch
      dsimp only
      split
      · simp
      · split
        · simp [close]
        · split <;> simp
  | finish result =>
    cases layers with
    | cons => cases result <;> cases ended
    | nil => simp [conclude, close]

theorem poll_of_run {machine : Machine}
    (run : (Machine.start operation.id operation.task).run steps world = some (machine, between)) :
    operation.poll steps world = operation.conclude machine between := by
  rw [poll, run]

/-- Looks with enough steps all come to the same. -/
theorem Sees.poll (sees : operation.Sees world progress later) :
    ∃ enough, ∀ steps, enough ≤ steps → operation.poll steps world = (progress, later) := by
  obtain ⟨enough, machine, between, run, concludes⟩ := sees
  exact ⟨enough, fun steps le => (poll_of_run (Machine.run_mono le run)).trans concludes⟩

theorem sees_of_poll (polled : operation.poll steps world = (progress, later)) (goes : progress ≠ .stopped) :
    operation.Sees world progress later := by
  rw [Operation.poll] at polled
  split at polled
  next machine between run => exact ⟨steps, machine, between, run, polled⟩
  next =>
    cases polled
    exact absurd rfl goes

theorem Sees.unique {other : Progress} {last : World} (sees : operation.Sees world progress later)
    (again : operation.Sees world other last) : other = progress ∧ last = later := by
  obtain ⟨enough, first⟩ := sees.poll
  obtain ⟨plenty, second⟩ := again.poll
  have same := (first _ (Nat.le_max_left enough plenty)).symm.trans (second _ (Nat.le_max_right enough plenty))
  exact ⟨(Prod.mk.inj same).1.symm, (Prod.mk.inj same).2.symm⟩

/-- One look, and what follows. -/
theorem runAlone_succ (steps fuel : Nat) (operation : Operation) (world : World) :
    operation.runAlone steps (fuel + 1) world =
      match operation.poll steps world with
      | (.over result, later) => some (result, later)
      | (.stopped, _) => none
      | (.waiting rested, between) => (rested.called? between).bind (rested.runAlone steps fuel) := by
  rw [runAlone]
  rcases operation.poll steps world with ⟨rested | result | _, between⟩
  · dsimp only [called?]
    split
    · rfl
    · cases between.nextDue? <;> rfl
  · rfl
  · rfl

/-- An operation that comes to a result is followed to it if it is followed long enough. -/
theorem Comes.runAlone (comes : operation.Comes world result later) : ∃ enough, ∀ steps fuel, enough ≤ steps →
    enough ≤ fuel → operation.runAlone steps fuel world = some (result, later) := by
  induction comes with
  | done sees =>
    obtain ⟨enough, polls⟩ := sees.poll
    refine ⟨enough + 1, fun steps fuel patient long => ?_⟩
    obtain ⟨fuel, rfl⟩ : ∃ rest, fuel = rest + 1 := ⟨fuel - 1, by omega⟩
    rw [runAlone_succ, polls steps (by omega)]
  | again sees called rest ih =>
    obtain ⟨enough, polls⟩ := sees.poll
    obtain ⟨plenty, follows⟩ := ih
    refine ⟨max enough plenty + 1, fun steps fuel patient long => ?_⟩
    obtain ⟨fuel, rfl⟩ : ∃ rest, fuel = rest + 1 := ⟨fuel - 1, by omega⟩
    rw [runAlone_succ, polls steps (by omega)]
    dsimp only
    rw [called]
    exact follows steps fuel (by omega) (by omega)

theorem comes_of_runAlone (run : operation.runAlone steps fuel world = some (result, later)) :
    operation.Comes world result later := by
  induction fuel generalizing operation world with
  | zero => cases run
  | succ fuel ih =>
    rw [runAlone_succ] at run
    split at run
    next polled =>
      cases run
      exact .done (sees_of_poll polled (by simp))
    next => cases run
    next rested between polled =>
      obtain ⟨next, called, rest⟩ := Option.bind_eq_some_iff.mp run
      exact .again (sees_of_poll polled (by simp)) called (ih rest)

/-- What an operation comes to is settled from the start. -/
theorem Comes.unique {other : Except ResolveError Value} {last : World} (comes : operation.Comes world result later)
    (again : operation.Comes world other last) : other = result ∧ last = later := by
  obtain ⟨enough, first⟩ := comes.runAlone
  obtain ⟨plenty, second⟩ := again.runAlone
  have same := (first _ _ (Nat.le_max_left enough plenty) (Nat.le_max_left enough plenty)).symm.trans
    (second _ _ (Nat.le_max_right enough plenty) (Nat.le_max_right enough plenty))
  simp only [Option.some.injEq, Prod.mk.injEq] at same
  exact ⟨same.1.symm, same.2.symm⟩

end Operation

namespace Resolver

variable {config : Config} {registry : Registry} {node : Node} {result : Except ResolveError Value} {world : World}

/-- Resolving a node on a registry with nothing else going on, from time zero, ends with a result and leaves a
world: it does so whenever it is followed long enough. -/
def Returns (config : Config) (registry : Registry) (node : Node) (result : Except ResolveError Value)
    (world : World) : Prop :=
  ∃ enough, ∀ fuel, enough ≤ fuel →
    (Operation.resolve 0 config node (.initial registry)).runAlone fuel fuel (.initial registry) =
      some (result, world)

theorem returns_iff_comes : Returns config registry node result world ↔
    (Operation.resolve 0 config node (.initial registry)).Comes (.initial registry) result world := by
  constructor
  · rintro ⟨enough, follows⟩
    exact Operation.comes_of_runAlone (follows enough (Nat.le_refl _))
  · intro comes
    obtain ⟨enough, follows⟩ := comes.runAlone
    exact ⟨enough, fun fuel le => follows fuel fuel le le⟩

/-- What a resolution returns is what it is found to return with any fuel at all. -/
theorem returns_iff_resolve? {after : Registry} :
    (∃ world, Returns config registry node result world ∧ world.registry = after) ↔
      ∃ fuel, resolve? fuel config registry node = some (result, after) := by
  constructor
  · rintro ⟨world, ⟨enough, follows⟩, rfl⟩
    exact ⟨enough, by simp [resolve?, follows enough (Nat.le_refl _)]⟩
  · rintro ⟨fuel, resolved⟩
    obtain ⟨⟨own, world⟩, run, same⟩ := Option.map_eq_some_iff.mp resolved
    obtain ⟨rfl, rfl⟩ := Prod.mk.inj same
    exact ⟨world, returns_iff_comes.mpr (Operation.comes_of_runAlone run), rfl⟩

theorem Returns.unique {other : Except ResolveError Value} {last : World}
    (returns : Returns config registry node result world) (again : Returns config registry node other last) :
    other = result ∧ last = world :=
  (returns_iff_comes.mp returns).unique (returns_iff_comes.mp again)

end Resolver

end Blueprint
