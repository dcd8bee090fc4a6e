import Blueprint.Proofs.Machine.Running
import Blueprint.Proofs.Machine.Timing
import Blueprint.Proofs.Task.Clocks
/-! What is due is done. A look at an operation whose time has come does not leave anything behind that still runs:
every element that is still to be looked at has been called, so that the look goes on to the end. -/

namespace Blueprint

open Schedule

namespace Task.Timely

variable {lookup : Lookup} {registry : Registry} {owner : Option Key} {task : Task} {meanings : Lookup → Prop}

theorem not_waiting (timely : task.Timely lookup registry owner) (other : Option Key) (fetch : Fetch) (ticket : Nat) :
    (other, .waiting fetch ticket) ∉ task.stakes owner := by
  intro member
  obtain ⟨_, _, same, _⟩ := timely.complete _ member
  cases same

theorem inner {layer : Layer} (timely : (layer.around task).Timely lookup registry owner)
    (sound : (layer.around task).Sound meanings) : task.Timely lookup registry (layer.owner owner) where
  known := by
    have known := timely.known
    rw [Option.isSome_iff_ne_none] at known ⊢
    exact fun absent => known (Layer.value?_around_none sound absent)
  complete := by
    have complete := timely.complete
    rw [layer.stakes_around] at complete
    exact complete.mono (Multiset.le_add_right _ _)
  packed := by
    cases layer with
    | inside frame => exact packed_inside.mp timely.packed
    | joining before after => exact packed_join.mp timely.packed task (by simp)
    | fanning fan position tally => exact (packed_fan.mp timely.packed).2 (position, task) List.mem_cons_self

theorem of_surround {layers : List Layer} (timely : (surround layers task).Timely lookup registry none)
    (sound : (surround layers task).Sound meanings) : task.Timely lookup registry (ownerWithin layers) := by
  induction layers generalizing task with
  | nil => exact timely
  | cons layer outer ih => exact (ih timely sound).inner (sound_of_surround sound)

theorem element {fan : Fan Task} (timely : (Task.fan fan).Timely lookup registry owner) (proper : fan.Proper)
    {element : Nat × Task} (member : element ∈ fan.running) : element.2.Timely lookup registry owner where
  known := known_of_fan proper timely.known member
  complete stake inside := timely.complete stake (by
    rw [stakes_fan]
    exact Multiset.mem_add.mpr (.inr (mem_stakesOfElements.mpr ⟨element, member, inside⟩)))
  packed := (packed_fan.mp timely.packed).2 element member

/-- What lies on a strand that is not called does not end now. -/
theorem not_due {strand : Strand} {chain : List Strand} {world : World} {marks : Marks}
    (timely : task.Timely lookup registry owner) (sound : task.Sound meanings) (watched : marks.Watched world)
    (awake : ∀ mark ∈ task.marks (strand :: chain), Mark.Awake world mark) (silent : strand ∉ world.ready) :
    world.now < task.ends world.now := by
  have after := after_of_silent awake silent timely.not_waiting fun timer member => (watched.timers timer member).2
  exact (ends_of_after timely.packed sound timely.known after (Nat.le_succ _)).1

end Task.Timely

namespace Machine

variable {machine : Machine} {world : World} {result : Machine × World} {task : Task} {layers : List Layer}
  {rest : Marks} {meanings : Lookup → Prop} {lookup : Lookup} {registry : Registry} {owner : Option Key}

/-- Nothing that a look has passed by in these layers still runs. -/
def Passed (layers : List Layer) : Prop :=
  ∀ before after, .joining before after ∈ layers → ∀ task, .running task ∉ before

/-- The machine leaves nothing behind that still runs. -/
structure Prompt (machine : Machine) : Prop where
  goes : ∀ task, machine.control ≠ .rest task
  passed : Passed machine.layers

section Here

variable (passed : Passed machine.layers)

include passed

theorem poll_prompt (next : Task) : (machine.poll next).Prompt := ⟨nofun, passed⟩

theorem finish_prompt (result : Except ResolveError Value) : (machine.finish result).Prompt := ⟨nofun, passed⟩

theorem pollWithin_prompt {layer : Layer} (inner : Task) (spent : Passed [layer]) :
    (machine.pollWithin layer inner).Prompt where
  goes := nofun
  passed before after member := by
    rcases List.mem_cons.mp member with same | outer
    · exact spent before after (List.mem_singleton.mpr same)
    · exact passed before after outer

theorem sleep_prompt {delay : Nat} (next : Task) (none : delay = 0) : (machine.sleep delay next world).1.Prompt := by
  rw [sleep, if_pos none]
  exact poll_prompt passed next

theorem nextPart_prompt {before : List (Part Task)} (after : List (Part Task))
    (spent : ∀ task, .running task ∉ before) :
    (machine.nextPart before after).Prompt := by
  induction after generalizing before with
  | nil =>
    unfold nextPart
    split
    · exact finish_prompt passed _
    next open' =>
      obtain ⟨task, member⟩ := running_of_not_over open'
      exact absurd member (spent task)
  | cons part later ih =>
    cases part with
    | done value => exact ih (by simpa using spent)
    | running task =>
      refine pollWithin_prompt passed task fun first last member => ?_
      cases List.mem_singleton.mp member
      exact spent

theorem nextStage_prompt (type : EntityType) (scope : Scope) (done : List (String × Value))
    (stages : List (List (String × Slot))) : (machine.nextStage type scope done stages).Prompt := by
  cases stages with
  | nil => exact finish_prompt passed _
  | cons => exact pollWithin_prompt passed _ (by simp [Passed])

theorem pollShell_prompt {shell : Shell} {scope : Scope}
    (timely : (Task.shell shell scope).Timely lookup registry owner)
    (due : (Task.shell shell scope).ends world.now ≤ world.now) : (machine.pollShell shell scope world).1.Prompt := by
  rw [Task.ends_shell] at due
  unfold pollShell
  split
  next => exact nextStage_prompt passed _ _ _ _
  next => exact poll_prompt passed _
  next type value delay counter =>
    rw [Shell.time] at due
    exact sleep_prompt passed _ (by omega)
  next => cases timely.known
  next type node delay =>
    rw [Shell.time] at due
    exact sleep_prompt passed _ (by omega)

theorem pollField_prompt (entity name : String) (slot : Slot) (scope : Scope) :
    (machine.pollField entity name slot scope world).1.Prompt := by
  unfold pollField
  split
  · exact finish_prompt passed _
  · exact poll_prompt passed _
  · exact finish_prompt passed _
  · exact pollWithin_prompt passed _ (by simp [Passed])
  · exact poll_prompt passed _
  · exact pollWithin_prompt passed _ (by simp [Passed])

/-- If all strands of a collection that are called are those of elements that run, and one is as long as something
runs, the look goes on. -/
theorem nextElement_prompt {fan : Fan Task} (tally : Tally)
    (owned : ∀ position, .element fan.id position ∈ world.ready → position ∈ fan.running.map (·.1))
    (called : fan.running ≠ [] → ∃ position, .element fan.id position ∈ world.ready) :
    (machine.nextElement fan tally world).1.Prompt := by
  unfold nextElement
  split
  next none =>
    split
    next => exact finish_prompt passed _
    next busy =>
      obtain ⟨position, queued⟩ := called fun empty => busy (by rw [empty]; rfl)
      exact absurd queued (World.silent_of_nextElement? none position)
  next position after found =>
    split
    next absent =>
      exact absurd (owned position (World.called_of_nextElement? found).1) (OrderedMap.get?_eq_none_iff.mp absent)
    next => exact pollWithin_prompt passed _ (by simp [Passed])

/-- In a collection that is due every element that runs has been called. -/
theorem runFan_prompt {fan : Fan Task} (watched : (machine.fanMarks rest fan).Watched world)
    (answers : (surround machine.layers (.fan fan)).Answers world)
    (awake : ∀ mark ∈ marksOfElements fan.id machine.strands fan.running, Mark.Awake world mark)
    (each : ∀ element ∈ fan.running, element.2.Timely lookup registry owner ∧ element.2.Sound meanings ∧
      element.2.ends world.now ≤ world.now) : (machine.runFan fan world).1.Prompt := by
  refine nextElement_prompt passed _ (fun position queued => ?_) fun some' => ?_
  · rw [Fan.refill, List.map_append, List.mem_append]
    rcases List.mem_append.mp queued with old | started
    · exact .inr (owned watched answers old)
    · obtain ⟨element, member, same⟩ := List.mem_map.mp started
      cases same
      exact .inl (List.mem_map_of_mem (List.mem_reverse.mpr member))
  · obtain ⟨element, member⟩ := List.exists_mem_of_ne_nil _ some'
    refine ⟨element.1, List.mem_append.mpr ?_⟩
    rcases List.mem_append.mp member with new | old
    · exact .inr (List.mem_map_of_mem (List.mem_reverse.mp new))
    · left
      by_contra silent
      obtain ⟨timely, sound, due⟩ := each element old
      have inner : ∀ mark ∈ element.2.marks (.element fan.id element.1 :: machine.strands), Mark.Awake world mark :=
        fun mark inside => awake mark (mem_marksOfElements.mpr ⟨element, old, inside⟩)
      exact absurd (timely.not_due sound watched inner silent) (Nat.not_lt.mpr due)

theorem pollTask_prompt (sound : (surround machine.layers task).Sound meanings)
    (timely : (surround machine.layers task).Timely lookup world.registry none)
    (watched : (task.marks machine.strands + machine.around rest).Watched world)
    (awake : ∀ mark ∈ (task.marks machine.strands).beyond machine.strands, Mark.Awake world mark)
    (answers : (surround machine.layers task).Answers world) (due : task.ends world.now ≤ world.now) :
    (machine.pollTask task world).1.Prompt := by
  have own := timely.of_surround sound
  unfold pollTask
  split
  next => exact finish_prompt passed _
  next =>
    obtain ⟨value, step⟩ := dereference_complete timely.complete
    rw [step]
    exact finish_prompt passed _
  next => exact poll_prompt passed _
  next => exact pollShell_prompt passed own due
  next => exact pollWithin_prompt passed _ (by simp [Passed])
  next => exact pollField_prompt passed _ _ _ _
  next set timer next =>
    have past : set ≤ world.now := by
      rw [Task.ends_delay] at due
      exact (Nat.le_max_right _ _).trans ((Task.le_ends _ next).trans due)
    rw [if_pos past]
    exact poll_prompt passed _
  next => cases own.known
  next fetch ticket => exact absurd (Multiset.mem_singleton_self _) (own.not_waiting _ fetch ticket)
  next => exact pollWithin_prompt passed _ (by simp [Passed])
  next parts => exact nextPart_prompt passed parts (by simp)
  next fan =>
    have inner := (Task.sound_fan fan).mp (sound_of_surround sound)
    refine runFan_prompt passed (marks_of_fan watched) answers (fun mark member => awake mark ?_)
      fun element member => ⟨own.element inner.1 member, soundElements_iff.mp inner.2.2 element member, ?_⟩
    · rw [Task.marks_fan, Marks.beyond, Multiset.filter_cons, Multiset.filter_add]
      exact Multiset.mem_add.mpr (.inr (Multiset.mem_add.mpr (.inr (by rwa [← Marks.beyond, beyond_elements]))))
    · exact (ends_le_fan member).trans due

theorem finishIn_prompt {layer : Layer} {value : Value} {scope : Scope} (last : Passed [layer])
    (sound : (surround machine.layers (layer.around (.node (.literal value) scope))).Sound meanings)
    (timely : (surround machine.layers (layer.around (.node (.literal value) scope))).Timely lookup world.registry none)
    (watched : (layer.marks machine.strands + machine.around rest).Watched world)
    (awake : ∀ mark ∈ layer.asleep machine.strands, Mark.Awake world mark)
    (answers : (surround machine.layers (layer.around (.node (.literal value) scope))).Answers world)
    (due : (layer.around (.node (.literal value) scope)).ends world.now ≤ world.now) :
    (machine.finishIn layer value world).1.Prompt := by
  cases layer with
  | inside frame =>
    unfold finishIn finishFrame
    dsimp only
    split
    · exact finish_prompt passed _
    · exact finish_prompt passed _
    · exact finish_prompt passed _
    · exact finish_prompt passed _
    · exact nextStage_prompt passed _ _ _ _
  | joining before after =>
    have spent := last before after (List.mem_singleton_self _)
    exact nextPart_prompt passed after (by simpa using spent)
  | fanning fan position tally =>
    obtain ⟨proper, _, sounds⟩ := (Task.sound_fan _).mp (sound_of_surround sound)
    have apart := apart_of_proper proper
    have own := timely.of_surround sound
    have kept : (machine.fanMarks rest fan).Watched world := by
      rw [fanMarks, ← Multiset.cons_add]
      exact watched
    have later : (machine.fanMarks rest { fan with done := fan.done ++ [(position, value)] }).Watched
        { world with ready := world.ready.erase (.element fan.id position) } :=
      kept.fewer (Nat.le_refl _) (fun _ _ member => member) rfl rfl
    refine runFan_prompt passed later (finishElement_answers _ answers) (finishElement_awake apart kept awake)
      fun element member => ⟨own.element proper (List.mem_cons_of_mem _ member),
        soundElements_iff.mp sounds element (List.mem_cons_of_mem _ member), ?_⟩
    exact (ends_le_fan (List.mem_cons_of_mem _ member)).trans due

end Here

/-- A step of a machine whose operation is due leaves nothing behind that still runs. -/
theorem step_prompt (sound : machine.whole.Sound meanings) (timely : machine.whole.Timely lookup world.registry none)
    (minded : machine.Minded rest world) (answers : machine.whole.Answers world)
    (due : machine.whole.ends world.now ≤ world.now) (prompt : machine.Prompt)
    (step : machine.step world = some result) : result.1.Prompt := by
  cases step_steps step with
  | @poll operation task layers =>
    obtain ⟨watched, awake, _⟩ := minded.here
    exact @pollTask_prompt ⟨operation, .poll task, layers⟩ world task rest _ _ prompt.passed sound timely watched awake
      answers ((ends_le_surround _ _ _).trans due)
  | rest => exact absurd rfl (prompt.goes _)
  | @finish operation own layer layers =>
    obtain ⟨watched, _, awake, _⟩ := minded.within
    exact @finishIn_prompt ⟨operation, .finish (.ok own), layers⟩ world rest _ _
      (fun before after member => prompt.passed before after (List.mem_cons_of_mem _ member)) layer own _
      (fun before after member => prompt.passed before after (List.mem_singleton.mp member ▸ List.mem_cons_self))
      sound timely (Marks.Watched.idle_iff.mp watched) awake answers ((ends_le_surround _ _ _).trans due)
  | fail =>
    have known := timely.known
    rw [failing_value? sound] at known
    cases known

end Machine

end Blueprint
