import Blueprint.Resolution.Machine
/-! What a step of a machine can be. It looks at a task, or it leaves one that waits, that has a value or that failed,
into the layer around it. Without a layer around it the machine is at the end of its look. Pairs that become a map
change nothing in the world but its messages. -/

namespace Blueprint.Machine

variable {machine : Machine} {world : World} {result : Machine × World}

/-- All that a step can be. -/
inductive Steps : Machine → World → Machine × World → Prop where
  | poll {operation : Nat} {task : Task} {layers : List Layer} {world : World} :
    Steps ⟨operation, .poll task, layers⟩ world (pollTask ⟨operation, .poll task, layers⟩ task world)
  | rest {operation : Nat} {task : Task} {layer : Layer} {layers : List Layer} {world : World} :
    Steps ⟨operation, .rest task, layer :: layers⟩ world
      (restIn ⟨operation, .rest task, layers⟩ layer task world)
  | finish {operation : Nat} {value : Value} {layer : Layer} {layers : List Layer} {world : World} :
    Steps ⟨operation, .finish (.ok value), layer :: layers⟩ world
      (finishIn ⟨operation, .finish (.ok value), layers⟩ layer value world)
  | fail {operation : Nat} {error : ResolveError} {layer : Layer} {layers : List Layer} {world : World} :
    Steps ⟨operation, .finish (.error error), layer :: layers⟩ world
      (⟨operation, .finish (.error error), layers⟩, failIn layer world)

theorem step_steps (step : machine.step world = some result) : Steps machine world result := by
  obtain ⟨operation, control, layers⟩ := machine
  cases control with
  | poll task =>
    cases step
    exact .poll
  | rest task =>
    cases layers with
    | nil => cases step
    | cons layer layers =>
      cases step
      exact .rest
  | finish ending =>
    cases layers with
    | nil => cases ending <;> cases step
    | cons layer layers =>
      cases ending with
      | ok value =>
        cases step
        exact .finish
      | error error =>
        cases step
        exact .fail

/-- All that a machine at the end of its look can be. -/
inductive Idles : Machine → Prop where
  | rest {operation : Nat} {task : Task} : Idles ⟨operation, .rest task, []⟩
  | finish {operation : Nat} {result : Except ResolveError Value} : Idles ⟨operation, .finish result, []⟩

theorem step_idles (idle : machine.step world = none) : Idles machine := by
  obtain ⟨operation, control, layers⟩ := machine
  cases control with
  | poll task => cases idle
  | rest task =>
    cases layers with
    | nil => exact .rest
    | cons layer layers => cases idle
  | finish ending =>
    cases layers with
    | nil => exact .finish
    | cons layer layers => cases ending <;> cases idle

/-- The world makes no difference to the map that pairs become. -/
theorem fold_value (path : Path) (pairs : List (Value × Value)) (world : World) :
    (fold path pairs world).1 = .ofPairs pairs := by
  unfold fold Value.ofPairs OrderedMap.ofList
  refine congrArg Value.map ?_
  generalize ([] : List (Value × Value)) = entries
  induction pairs generalizing entries world with
  | nil => rfl
  | cons pair rest ih =>
    rw [List.foldl_cons, List.foldl_cons]
    exact ih _ _

/-- Whatever messages about repeated keys keep is kept when pairs become a map. -/
theorem fold_keeps {keeps : World → World → Prop} {path : Path} (refl : ∀ world, keeps world world)
    (trans : ∀ {first second third}, keeps first second → keeps second third → keeps first third)
    (emit : ∀ world : World, keeps world (world.emit (.duplicateKey path))) (pairs : List (Value × Value))
    (world : World) : keeps world (fold path pairs world).2 := by
  unfold fold
  generalize ([] : List (Value × Value)) = entries
  induction pairs generalizing entries world with
  | nil => exact refl world
  | cons pair rest ih =>
    rw [List.foldl_cons]
    refine trans ?_ (ih _ _)
    split
    · exact emit world
    · exact refl world

end Blueprint.Machine
