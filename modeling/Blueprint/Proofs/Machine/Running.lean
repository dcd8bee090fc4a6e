import Blueprint.Proofs.Machine.Filled
import Blueprint.Proofs.Machine.Reading
import Blueprint.Proofs.Machine.Tended
import Blueprint.Proofs.Task.Running
/-! Whoever is called is there. As long as a machine only reads, no strand is called twice, and an element runs on each
strand of a collection that is called. -/

namespace Blueprint

namespace Strand

theorem nodup_wake {ready : List Strand} (once : ready.Nodup) (chain : List Strand) : (wake ready chain).Nodup := by
  induction chain generalizing ready with
  | nil => exact once
  | cons strand outer ih =>
    rw [wake]
    split
    next => exact once
    next absent =>
      refine ih (List.nodup_append.mpr ⟨once, List.nodup_singleton strand, fun other member _ last same => ?_⟩)
      exact absent (List.mem_singleton.mp last ▸ same ▸ member)

theorem nodup_wakeEach {ready : List Strand} (once : ready.Nodup) (chains : List (List Strand)) :
    (wakeEach ready chains).Nodup := by
  induction chains generalizing ready with
  | nil => exact once
  | cons chain rest ih => exact ih (nodup_wake once chain)

theorem mem_of_mem_wake {strand : Strand} {ready chain : List Strand} (queued : strand ∈ wake ready chain) :
    strand ∈ ready ∨ strand ∈ chain :=
  (told_wake queued).imp_right fun ⟨_, inside, _⟩ => inside.subset List.mem_cons_self

end Strand

namespace World

variable {world after : World} {fan position : Nat}

/-- The strand that is taken out next was called. -/
theorem called_of_nextElement? (found : world.nextElement? fan = some (position, after)) :
    .element fan position ∈ world.ready ∧ after.ready = world.ready.erase (.element fan position) := by
  unfold nextElement? at found
  split at found
  next id place first =>
    cases found
    have own : id = fan := by simpa [Strand.isElementOf] using List.find?_some first
    exact ⟨own ▸ List.mem_of_find?_eq_some first, own ▸ rfl⟩
  next => cases found

theorem silent_of_nextElement? (none : world.nextElement? fan = none) (position : Nat) :
    .element fan position ∉ world.ready := by
  intro queued
  unfold nextElement? at none
  split at none
  next => cases none
  next other =>
    have own : Strand.isElementOf fan (.element fan position) = true := by simp [Strand.isElementOf]
    obtain ⟨strand, found⟩ := Option.isSome_iff_exists.mp (List.find?_isSome.mpr ⟨_, queued, own⟩)
    have own := List.find?_some found
    cases strand with
    | operation number => cases own
    | element id place => exact other id place found

end World

/-- No strand is called twice, and an element runs on each strand of a collection that is called. -/
structure Task.Answers (task : Task) (world : World) : Prop where
  once : world.ready.Nodup
  runs : ∀ id position, .element id position ∈ world.ready → task.Runs (.element id position)

namespace Task.Answers

variable {layers : List Layer} {before after : Task} {world later : World}

/-- What runs goes on to run, and nobody else is called. -/
theorem surrounded (answers : (surround layers before).Answers world) (ready : later.ready.Sublist world.ready)
    (runs : ∀ strand, before.Runs strand → after.Runs strand) : (surround layers after).Answers later where
  once := answers.once.sublist ready
  runs id position queued :=
    runs_surround.mpr ((runs_surround.mp (answers.runs id position (ready.subset queued))).imp_left (runs _))

/-- Calling the place itself. -/
theorem wake (answers : (surround layers before).Answers world) (operation : Nat) :
    (surround layers before).Answers (world.wake (Layer.strands layers operation)) where
  once := Strand.nodup_wake answers.once _
  runs id position queued := by
    rcases Strand.mem_of_mem_wake queued with old | inside
    · exact answers.runs id position old
    · exact runs_surround.mpr (.inr (runsAround_of_strands inside))

end Task.Answers

namespace Machine

variable {machine : Machine} {world later : World} {result : Machine × World} {task : Task} {rest : Marks}
  {meanings : Lookup → Prop}

section Bare

variable (answers : (surround machine.layers task).Answers world) (bare : ∀ strand, ¬ task.Runs strand)

include answers bare

/-- Where nothing ran anything may come next. -/
theorem control_answers {control : Control} (ready : later.ready.Sublist world.ready) :
    (Machine.whole { machine with control }).Answers later :=
  answers.surrounded ready fun strand runs => absurd runs (bare strand)

theorem pollWithin_answers {layer : Layer} {inner : Task} (ready : later.ready.Sublist world.ready) :
    (machine.pollWithin layer inner).whole.Answers later :=
  answers.surrounded ready fun strand runs => absurd runs (bare strand)

theorem sleep_answers {delay : Nat} {next : Task} (ready : later.ready.Sublist world.ready) :
    (machine.sleep delay next later).1.whole.Answers (machine.sleep delay next later).2 := by
  unfold sleep
  split
  · exact control_answers answers bare ready
  · exact control_answers answers bare ready

theorem nextStage_answers (type : EntityType) (scope : Scope) (done : List (String × Value))
    (stages : List (List (String × Slot))) : (machine.nextStage type scope done stages).whole.Answers world := by
  cases stages with
  | nil => exact control_answers answers bare (.refl _)
  | cons fields later => exact pollWithin_answers answers bare (.refl _)

theorem pollShell_answers (shell : Shell) (scope : Scope) :
    (machine.pollShell shell scope world).1.whole.Answers (machine.pollShell shell scope world).2 := by
  unfold pollShell
  split
  · exact nextStage_answers answers bare _ _ _ _
  · exact control_answers answers bare (.refl _)
  · exact sleep_answers answers bare (.refl _)
  · exact control_answers answers bare (.refl _)
  · exact sleep_answers answers bare (.refl _)

theorem pollField_answers (entity name : String) (slot : Slot) (scope : Scope) :
    (machine.pollField entity name slot scope world).1.whole.Answers
      (machine.pollField entity name slot scope world).2 := by
  unfold pollField
  split
  · exact control_answers answers bare (.refl _)
  · exact control_answers answers bare (.refl _)
  · exact control_answers answers bare (.refl _)
  · exact pollWithin_answers answers bare (.refl _)
  · exact control_answers answers bare (.refl _)
  · exact pollWithin_answers answers bare (.refl _)

end Bare

theorem nextPart_answers {before after : List (Part Task)}
    (answers : (surround machine.layers (.join (before ++ after))).Answers world) :
    (machine.nextPart before after).whole.Answers world := by
  induction after generalizing before with
  | nil =>
    rw [List.append_nil] at answers
    unfold nextPart
    split
    next values known =>
      rw [parts_done known] at answers
      refine control_answers answers (fun strand runs => ?_) (.refl _)
      obtain ⟨task, member, _⟩ := Task.runs_join.mp runs
      simp at member
    next => exact answers
  | cons part rest ih =>
    cases part with
    | done value =>
      rw [List.append_cons] at answers
      exact ih answers
    | running task => exact answers

/-- The strands of a collection that are called are those of elements that run. -/
theorem owned {fan : Fan Task} (watched : (machine.fanMarks rest fan).Watched world)
    (answers : (surround machine.layers (.fan fan)).Answers world) {position : Nat}
    (queued : .element fan.id position ∈ world.ready) : position ∈ fan.running.map (·.1) := by
  obtain ⟨inner, outer⟩ := fan_foreign watched
  rcases runs_surround.mp (answers.runs _ _ queued) with runs | around
  · obtain ⟨element, member, same | deeper⟩ := Task.runs_fan.mp runs
    · cases same
      exact List.mem_map_of_mem member
    · exact absurd (deeper.number _) (element_foreign watched member)
  · refine absurd ?_ outer
    rw [Machine.around, Marks.numbers_add]
    exact Multiset.mem_add.mpr (.inl (number_of_runsAround around _))

theorem nextElement_answers {fan : Fan Task} (tally : Tally) (distinct : (fan.running.map (·.1)).Nodup)
    (answers : (surround machine.layers (.fan fan)).Answers world) :
    (machine.nextElement fan tally world).1.whole.Answers (machine.nextElement fan tally world).2 := by
  unfold nextElement
  split
  next =>
    split
    next empty =>
      refine control_answers answers (fun strand runs => ?_) (.refl _)
      obtain ⟨element, member, _⟩ := Task.runs_fan.mp runs
      rw [List.isEmpty_iff.mp empty] at member
      cases member
    next => exact answers
  next position after found =>
    have sublist : after.ready.Sublist world.ready :=
      (World.called_of_nextElement? found).2 ▸ List.erase_sublist
    split
    next => exact (answers.surrounded sublist fun _ runs => runs).wake machine.operation
    next element listed =>
      refine answers.surrounded sublist fun strand runs => ?_
      obtain ⟨other, member, runs⟩ := Task.runs_fan.mp runs
      exact Task.runs_fan.mpr ⟨other, (OrderedMap.perm_of_get? distinct listed).mem_iff.mp member, runs⟩

theorem runFan_answers {fan : Fan Task} (distinct : ((fan.queued ++ fan.running).map (·.1)).Nodup)
    (watched : (machine.fanMarks rest fan).Watched world)
    (answers : (surround machine.layers (.fan fan)).Answers world) :
    (machine.runFan fan world).1.whole.Answers (machine.runFan fan world).2 := by
  have running := refill_distinct distinct
  refine nextElement_answers _ running ⟨?_, fun id position queued => ?_⟩
  · rw [List.map_append, List.nodup_append] at distinct
    obtain ⟨queue, _, apart⟩ := distinct
    refine List.nodup_append.mpr ⟨answers.once, ?_, ?_⟩
    · have started := queue.sublist ((List.take_sublist (fan.limit - fan.running.length) fan.queued).map (·.1))
      rw [List.nodup_iff_pairwise_ne, List.pairwise_map] at started ⊢
      exact started.imp fun different same => different (Strand.element.inj same).2
    · rintro strand called _ started rfl
      obtain ⟨element, member, rfl⟩ := List.mem_map.mp started
      exact apart _ (List.mem_map_of_mem (List.mem_of_mem_take member)) _ (owned watched answers called) rfl
  · rcases List.mem_append.mp queued with old | started
    · refine runs_surround.mpr ((runs_surround.mp (answers.runs id position old)).imp_left fun runs => ?_)
      obtain ⟨element, member, runs⟩ := Task.runs_fan.mp runs
      exact Task.runs_fan.mpr ⟨element, List.mem_append_right _ member, runs⟩
    · obtain ⟨element, member, same⟩ := List.mem_map.mp started
      cases same
      refine runs_surround.mpr (.inl (Task.runs_fan.mpr ⟨element, ?_, .inl rfl⟩))
      exact List.mem_append_left _ (List.mem_reverse.mpr member)

theorem pollTask_answers (sound : (surround machine.layers task).Sound meanings)
    (complete : ((surround machine.layers task).stakes none).Complete world.registry)
    (watched : (task.marks machine.strands + machine.around rest).Watched world)
    (answers : (surround machine.layers task).Answers world) :
    (machine.pollTask task world).1.whole.Answers (machine.pollTask task world).2 := by
  unfold pollTask
  split
  next => exact control_answers answers nofun (.refl _)
  next type name scope =>
    obtain ⟨value, step⟩ := dereference_complete complete
    rw [step]
    exact control_answers answers nofun (.refl _)
  next shell scope =>
    refine control_answers answers nofun ?_
    split <;> exact .refl _
  next shell scope => exact pollShell_answers answers nofun shell scope
  next => exact pollWithin_answers answers nofun (.refl _)
  next => exact pollField_answers answers nofun _ _ _ _
  next due timer next =>
    split
    · exact control_answers answers nofun (.refl _)
    · exact answers
  next => exact answers
  next fetch ticket =>
    obtain ⟨_, _, same, _⟩ := complete_of_surround complete _ (Multiset.mem_singleton_self _)
    cases same
  next => exact answers
  next parts => exact nextPart_answers answers
  next fan =>
    have proper := proper_of_surround sound
    exact runFan_answers proper.distinct_started (marks_of_fan watched) answers

theorem restIn_answers {layer : Layer} (sound : (surround machine.layers (layer.around task)).Sound meanings)
    (answers : (surround machine.layers (layer.around task)).Answers world) :
    (machine.restIn layer task world).1.whole.Answers (machine.restIn layer task world).2 := by
  unfold restIn
  split
  next => exact answers
  next before after =>
    rw [Layer.around, List.append_cons] at answers
    exact nextPart_answers answers
  next fan position tally =>
    have running := (proper_of_surround sound).distinct_running
    dsimp only
    generalize (if world.ready.contains _ then 1 else 0) = woken
    split
    · exact answers.wake machine.operation
    · exact nextElement_answers _ running answers

/-- The strand of an element that is over is not called any more. -/
theorem finishElement_answers {fan : Fan Task} {position : Nat} {value : Value} {scope : Scope}
    (done : List (Nat × Value)) (answers : (surround machine.layers
      (.fan { fan with running := (position, .node (.literal value) scope) :: fan.running })).Answers world) :
    (surround machine.layers (.fan { fan with done })).Answers
      { world with ready := world.ready.erase (.element fan.id position) } where
  once := answers.once.sublist List.erase_sublist
  runs id place queued := by
    obtain ⟨apart, called⟩ := answers.once.mem_erase_iff.mp queued
    refine runs_surround.mpr ((runs_surround.mp (answers.runs id place called)).imp_left fun runs => ?_)
    obtain ⟨element, member, runs⟩ := Task.runs_fan.mp runs
    rcases List.mem_cons.mp member with rfl | other
    · rcases runs with same | inner
      · exact absurd same apart
      · cases inner
    · exact Task.runs_fan.mpr ⟨element, other, runs⟩

theorem finishIn_answers {layer : Layer} {value : Value} {scope : Scope}
    (sound : (surround machine.layers (layer.around (.node (.literal value) scope))).Sound meanings)
    (complete : ((surround machine.layers (layer.around (.node (.literal value) scope))).stakes none).Complete
      world.registry)
    (watched : (layer.marks machine.strands + machine.around rest).Watched world)
    (answers : (surround machine.layers (layer.around (.node (.literal value) scope))).Answers world) :
    (machine.finishIn layer value world).1.whole.Answers (machine.finishIn layer value world).2 := by
  cases layer with
  | inside frame =>
    have bare : ∀ strand, ¬ (Task.inside frame (.node (.literal value) scope)).Runs strand :=
      fun strand runs => nomatch Task.runs_inside.mp runs
    unfold finishIn finishFrame
    dsimp only
    split
    · exact control_answers answers bare (.refl _)
    · exact control_answers answers bare (.refl _)
    next path =>
      refine control_answers answers bare ?_
      rw [(fold_still path (pairs value) world).ready]
    next fetch =>
      obtain ⟨_, _, same, _⟩ := complete_of_surround complete (ownerWithin machine.layers, .turn fetch)
        (by simp [Layer.around, Frame.stakes])
      cases same
    · exact nextStage_answers answers bare _ _ _ _
  | joining before after =>
    refine nextPart_answers (answers.surrounded (.refl _) fun strand runs => ?_)
    obtain ⟨task, member, runs⟩ := Task.runs_join.mp runs
    refine Task.runs_join.mpr ⟨task, ?_, runs⟩
    simp only [List.mem_append, List.mem_cons, Part.running.injEq, reduceCtorEq, List.not_mem_nil, or_false] at member ⊢
    rcases member with earlier | rfl | later
    · exact .inl earlier
    · cases runs
    · exact .inr later
  | fanning fan position tally =>
    have kept : (machine.fanMarks rest fan).Watched world := by
      rw [fanMarks, ← Multiset.cons_add]
      exact watched
    have distinct := (proper_of_surround sound).distinct_others
    have forward : (machine.fanMarks rest { fan with done := fan.done ++ [(position, value)] }).Watched
        { world with ready := world.ready.erase (.element fan.id position) } :=
      kept.fewer (Nat.le_refl _) (fun _ _ member => member) rfl rfl
    refine runFan_answers distinct forward (finishElement_answers _ answers)

/-- A step of a machine that will come to a value by reading leaves nobody called who is not there. -/
theorem step_answers {lookup : Lookup} (sound : machine.whole.Sound meanings)
    (known : (machine.whole.value? lookup).isSome)
    (complete : (machine.whole.stakes none).Complete world.registry) (minded : machine.Minded rest world)
    (answers : machine.whole.Answers world) (step : machine.step world = some result) :
    result.1.whole.Answers result.2 := by
  cases step_steps step with
  | @poll operation task layers =>
    exact @pollTask_answers ⟨operation, .poll task, layers⟩ world task rest _ sound complete minded.here.1 answers
  | @rest operation task layer layers =>
    exact @restIn_answers ⟨operation, .rest task, layers⟩ world task _ layer sound answers
  | @finish operation own layer layers =>
    exact @finishIn_answers ⟨operation, .finish (.ok own), layers⟩ world rest _ layer own _ sound complete
      (Marks.Watched.idle_iff.mp minded.within.1) answers
  | fail =>
    rw [failing_value? sound] at known
    cases known

end Machine

end Blueprint
