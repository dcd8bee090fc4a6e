import Blueprint.Proofs.Machine.Quiet
/-! Collections start what they may. Once anything of a collection runs, as much of it runs as its bound allows, or
all of it has been started. A look does not come to rest before. -/

namespace Blueprint

namespace Fan

variable {α : Type} {fan : Fan α}

/-- Nothing has started, or nothing more may start. -/
def Filled (fan : Fan α) : Prop :=
  fan.running = [] ∨ fan.starting = []

/-- After starting all that may start, nothing more may. -/
theorem starting_refill (fan : Fan α) : fan.refill.starting = [] := by
  rw [starting, refill, List.take_eq_nil_iff]
  by_cases room : fan.queued.length ≤ fan.limit - fan.running.length
  · exact .inr (List.drop_eq_nil_of_le room)
  · left
    simp only [starting, List.length_append, List.length_reverse, List.length_take]
    omega

/-- It does not matter which elements run. -/
theorem Filled.of_length (filled : fan.Filled) {others : List (Nat × α)} (same : others.length = fan.running.length) :
    { fan with running := others }.Filled := by
  refine filled.imp (fun none => ?_) fun none => ?_
  · rw [none, List.length_nil] at same
    exact List.eq_nil_of_length_eq_zero same
  · rw [starting] at none ⊢
    rw [same]
    exact none

end Fan

/-- A collection of a task that lies in no other collection. -/
inductive Task.Opens : Task → Fan Task → Prop where
  | here (fan : Fan Task) : Opens (.fan fan) fan
  | delay {due timer : Nat} {next : Task} {fan : Fan Task} (opens : Opens next fan) : Opens (.delay due timer next) fan
  | inside {frame : Frame} {task : Task} {fan : Fan Task} (opens : Opens task fan) : Opens (.inside frame task) fan
  | join {parts : List (Part Task)} {task : Task} {fan : Fan Task} (member : .running task ∈ parts)
      (opens : Opens task fan) : Opens (.join parts) fan

/-- All collections of a task that lie in no others have started what they may. -/
def Task.Filled (task : Task) : Prop :=
  ∀ fan, task.Opens fan → fan.Filled

namespace Task.Filled

variable {task before after : Task}

theorem of_bare (bare : ∀ fan, ¬ task.Opens fan) : task.Filled := fun fan opens => absurd opens (bare fan)

theorem node (node : Node) (scope : Scope) : (Task.node node scope).Filled := of_bare fun _ opens => nomatch opens

theorem forever : Task.forever.Filled := of_bare fun _ opens => nomatch opens

theorem inside_iff {frame : Frame} : (Task.inside frame task).Filled ↔ task.Filled :=
  ⟨fun filled fan opens => filled fan (.inside opens), fun filled fan opens => by
    cases opens with
    | inside opens => exact filled fan opens⟩

theorem delay_iff {due timer : Nat} : (Task.delay due timer task).Filled ↔ task.Filled :=
  ⟨fun filled fan opens => filled fan (.delay opens), fun filled fan opens => by
    cases opens with
    | delay opens => exact filled fan opens⟩

theorem fan_iff {fan : Fan Task} : (Task.fan fan).Filled ↔ fan.Filled :=
  ⟨fun filled => filled fan (.here fan), fun filled fan opens => by
    cases opens
    exact filled⟩

theorem join_iff {parts : List (Part Task)} :
    (Task.join parts).Filled ↔ ∀ task, .running task ∈ parts → task.Filled :=
  ⟨fun filled task member fan opens => filled fan (.join member opens), fun filled fan opens => by
    cases opens with
    | join member opens => exact filled _ member fan opens⟩

/-- In an unfinished whole one part may be exchanged for another. -/
theorem around {layer : Layer} (filled : (layer.around before).Filled) (inner : before.Filled → after.Filled) :
    (layer.around after).Filled := by
  cases layer with
  | inside frame => exact inside_iff.mpr (inner (inside_iff.mp filled))
  | joining first last =>
    refine join_iff.mpr fun task member => ?_
    have each := join_iff.mp filled
    simp only [List.mem_append, List.mem_cons, Part.running.injEq] at member each
    rcases member with earlier | rfl | later
    · exact each task (.inl earlier)
    · exact inner (each before (.inr (.inl rfl)))
    · exact each task (.inr (.inr later))
  | fanning fan position tally => exact fan_iff.mpr ((fan_iff.mp filled).of_length rfl)

theorem surrounded {layers : List Layer} (filled : (surround layers before).Filled)
    (inner : before.Filled → after.Filled) : (surround layers after).Filled := by
  induction layers generalizing before after with
  | nil => exact inner filled
  | cons layer outer ih => exact ih filled fun whole => around whole inner

end Task.Filled

namespace Machine

open Task.Filled

variable {machine : Machine} {world : World} {task : Task} {meanings : Lookup → Prop}

/-- The operation that a machine works for has started what it may, as soon as the machine leaves it. -/
def Filled (machine : Machine) : Prop :=
  machine.whole.Filled

section Here

variable (filled : (surround machine.layers task).Filled)

include filled

theorem finish_filled (result : Except ResolveError Value) : (machine.finish result).Filled := by
  cases result with
  | ok value => exact filled.surrounded fun _ => node _ _
  | error error => exact filled.surrounded fun _ => forever

theorem pollWithin_filled {layer : Layer} {inner : Task} (fills : task.Filled → (layer.around inner).Filled) :
    (machine.pollWithin layer inner).Filled :=
  filled.surrounded fills

theorem sleep_filled (delay : Nat) {next : Task} (fills : next.Filled) :
    (machine.sleep delay next world).1.Filled := by
  unfold sleep
  split
  · exact filled.surrounded fun _ => fills
  · exact filled.surrounded fun _ => delay_iff.mpr fills

theorem nextPart_filled {before after : List (Part Task)}
    (fills : task.Filled → ∀ part, .running part ∈ before ++ after → part.Filled) :
    (machine.nextPart before after).Filled := by
  induction after generalizing before with
  | nil =>
    unfold nextPart
    split
    · exact finish_filled filled _
    · exact filled.surrounded fun whole => join_iff.mpr (by simpa using fills whole)
  | cons part later ih =>
    cases part with
    | done value => exact ih (by simpa using fills)
    | running inner => exact pollWithin_filled filled fun whole => join_iff.mpr (fills whole)

theorem nextStage_filled (type : EntityType) (scope : Scope) (done : List (String × Value))
    (stages : List (List (String × Slot))) : (machine.nextStage type scope done stages).Filled := by
  cases stages with
  | nil => exact finish_filled filled _
  | cons fields later =>
    refine pollWithin_filled filled fun _ => inside_iff.mpr (join_iff.mpr fun part member => ?_)
    obtain ⟨field, _, same⟩ := List.mem_map.mp member
    cases same
    exact of_bare fun _ opens => nomatch opens

theorem beginFetch_filled (fetch : Fetch) : (machine.beginFetch fetch world).1.Filled := by
  unfold beginFetch
  split
  · split
    · exact pollWithin_filled filled fun _ => inside_iff.mpr (node _ _)
    · exact filled.surrounded fun _ => inside_iff.mpr forever
  · exact filled.surrounded fun _ => inside_iff.mpr forever

theorem dereference_filled (type : EntityType) (name : String) (scope : Scope) :
    (machine.dereference type name scope world).1.Filled := by
  unfold dereference
  dsimp only
  split
  · exact finish_filled filled _
  · exact finish_filled filled _
  · exact beginFetch_filled filled _
  · exact filled.surrounded fun _ => of_bare fun _ opens => nomatch opens

theorem awaken_filled (fetch : Fetch) (ticket : Nat) : (machine.awaken fetch ticket world).1.Filled := by
  unfold awaken
  split
  · exact filled.surrounded fun _ => of_bare fun _ opens => nomatch opens
  · exact finish_filled filled _
  · exact finish_filled filled _
  · exact beginFetch_filled filled _

theorem pollShell_filled (shell : Shell) (scope : Scope) : (machine.pollShell shell scope world).1.Filled := by
  unfold pollShell
  split
  · exact nextStage_filled filled _ _ _ _
  · exact filled.surrounded fun _ => of_bare fun _ opens => nomatch opens
  · exact sleep_filled filled _ (node _ _)
  · exact filled.surrounded fun _ => forever
  · exact sleep_filled filled _ (node _ _)

theorem pollField_filled (entity name : String) (slot : Slot) (scope : Scope) :
    (machine.pollField entity name slot scope world).1.Filled := by
  unfold pollField
  split
  · exact finish_filled filled _
  · exact filled.surrounded fun _ => node _ _
  · exact finish_filled filled _
  · exact pollWithin_filled filled fun _ => inside_iff.mpr (node _ _)
  · exact filled.surrounded fun _ => fan_iff.mpr (.inl rfl)
  · exact pollWithin_filled filled fun _ => inside_iff.mpr (fan_iff.mpr (.inl rfl))

/-- Going into an element leaves as many running, since the elements are told apart by their positions. -/
theorem nextElement_filled {fan : Fan Task} (tally : Tally) (distinct : (fan.running.map (·.1)).Nodup)
    (fills : task.Filled → fan.Filled) : (machine.nextElement fan tally world).1.Filled := by
  unfold nextElement
  split
  · split
    · exact finish_filled filled _
    · exact filled.surrounded fun whole => fan_iff.mpr (fills whole)
  next position later found =>
    split
    · exact filled.surrounded fun whole => fan_iff.mpr (fills whole)
    next element listed =>
      refine pollWithin_filled filled fun whole => fan_iff.mpr ((fills whole).of_length ?_)
      exact (OrderedMap.perm_of_get? distinct listed).length_eq.symm

theorem runFan_filled {fan : Fan Task} (distinct : ((fan.queued ++ fan.running).map (·.1)).Nodup) :
    (machine.runFan fan world).1.Filled :=
  nextElement_filled filled _ (refill_distinct distinct) fun _ => .inr fan.starting_refill

end Here

theorem pollTask_filled (sound : (surround machine.layers task).Sound meanings)
    (filled : (surround machine.layers task).Filled) : (machine.pollTask task world).1.Filled := by
  unfold pollTask
  split
  · exact finish_filled filled _
  · exact dereference_filled filled _ _ _
  · exact filled.surrounded fun _ => of_bare fun _ opens => nomatch opens
  · exact pollShell_filled filled _ _
  · exact pollWithin_filled filled fun _ => inside_iff.mpr (of_bare fun _ opens => nomatch opens)
  · exact pollField_filled filled _ _ _ _
  · split
    · exact filled.surrounded delay_iff.mp
    · exact filled
  · exact filled
  · exact awaken_filled filled _ _
  · exact filled
  · exact nextPart_filled filled join_iff.mp
  · exact runFan_filled filled (proper_of_surround sound).distinct_started

theorem restIn_filled {layer : Layer} (sound : (surround machine.layers (layer.around task)).Sound meanings)
    (filled : (surround machine.layers (layer.around task)).Filled) :
    (machine.restIn layer task world).1.Filled := by
  unfold restIn
  split
  next => exact filled
  next before after =>
    exact nextPart_filled filled fun whole part member => join_iff.mp whole part (by simpa [Layer.around] using member)
  next fan position tally =>
    have running := (proper_of_surround sound).distinct_running
    dsimp only
    generalize (if world.ready.contains _ then 1 else 0) = woken
    split
    · exact filled
    · exact nextElement_filled filled _ running fan_iff.mp

theorem finishIn_filled {layer : Layer} {value : Value} {scope : Scope}
    (sound : (surround machine.layers (layer.around (.node (.literal value) scope))).Sound meanings)
    (filled : (surround machine.layers (layer.around (.node (.literal value) scope))).Filled) :
    (machine.finishIn layer value world).1.Filled := by
  unfold finishIn
  split
  next frame =>
    unfold finishFrame
    split
    · exact finish_filled filled _
    · exact finish_filled filled _
    · exact finish_filled filled _
    · exact finish_filled filled _
    · exact nextStage_filled filled _ _ _ _
  next before after =>
    refine nextPart_filled filled fun whole part member => join_iff.mp whole part ?_
    simp only [List.mem_append, List.mem_cons, reduceCtorEq, List.not_mem_nil, or_false] at member ⊢
    exact member.imp_right .inr
  next fan position tally =>
    exact runFan_filled filled (proper_of_surround sound).distinct_others

/-- A step of a machine keeps collections filled. -/
theorem step_filled {after : Machine} {later : World} (sound : machine.whole.Sound meanings)
    (filled : machine.Filled) (step : machine.step world = some (after, later)) : after.Filled := by
  change (after, later).1.Filled
  generalize (after, later) = result at step ⊢
  cases step_steps step with
  | poll => exact pollTask_filled sound filled
  | rest => exact restIn_filled sound filled
  | finish => exact finishIn_filled sound filled
  | fail => exact Task.Filled.surrounded filled fun _ => forever

end Machine

end Blueprint
