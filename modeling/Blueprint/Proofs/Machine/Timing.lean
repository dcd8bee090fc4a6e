import Blueprint.Proofs.Machine.Filled
import Blueprint.Proofs.Machine.Onward
import Blueprint.Proofs.Machine.Reading
import Blueprint.Proofs.Task.Timing
/-! Steps take no time and lose none. What a machine makes of a task comes to its end when the task would have, as long
as nothing fails and whatever is fetched is there. A slot that an element of a collection leaves is taken at once by
the next one in the queue, which is what a greedy schedule does. -/

namespace Blueprint

open Schedule

/-- Collections that differ only in the order in which elements run end at the same time. -/
theorem fan_times_of_perm {now : Nat} {first second : Fan Task} (limit : second.limit = first.limit)
    (queued : second.queued = first.queued) (same : second.running.Perm first.running) :
    (Task.fan first).Times now (Task.fan second) := by
  intro packed
  obtain ⟨own, each⟩ := Task.packed_fan.mp packed
  refine ⟨Task.packed_fan.mpr ⟨⟨?_, ?_⟩, fun element member => each element (same.mem_iff.mp member)⟩, ?_⟩
  · rw [same.length_eq, limit]
    exact own.bounded
  · rw [same.length_eq, limit, queued]
    exact own.full.imp_left fun empty => List.eq_nil_of_length_eq_zero (by rw [same.length_eq, empty, List.length_nil])
  · have slots : (second.slots now).Perm (first.slots now) := by
      simp only [Fan.slots, endsOfElements_eq_map, same.length_eq, limit]
      exact (same.map _).append_right _
    rw [Task.ends_fan, Task.ends_fan, queued]
    exact latest_perm (assignAll_perm slots _)

/-- A collection none of whose elements has started ends when a greedy schedule of all of them would. -/
theorem ofTasks_ends (id limit now : Nat) (tasks : List Task) : (Task.fan (.ofTasks id limit tasks)).ends now =
    now + makespan (max limit 1) (tasks.map (Task.ends 0)) := by
  rw [Task.ends_fan, Fan.slots, Fan.ofTasks, endsOfElements_eq_map, endsOfElements_eq_map]
  simp only [List.map_nil, List.nil_append, List.length_nil, Nat.sub_zero]
  rw [Machine.map_mapIdx_of_eq tasks (fun position task => (position, task)) (fun element => element.2.ends 0)
    (Task.ends 0) fun _ _ => rfl, latest_replicate]

theorem ofTasks_packed (id limit : Nat) (tasks : List Task) : (Task.fan (.ofTasks id limit tasks)).Packed :=
  Task.packed_fan.mpr ⟨⟨Nat.zero_le _, .inl rfl⟩, fun _ member => nomatch member⟩

/-- Starting what may start is what a greedy schedule does next. -/
theorem refill_ends (now : Nat) {fan : Fan Task} (unstarted : ∀ element ∈ fan.queued, element.2.Unstarted) :
    (Task.fan fan.refill).ends now = (Task.fan fan).ends now := by
  generalize same : fan.limit - fan.running.length = room
  have queue : endsOfElements 0 fan.queued =
      endsOfElements 0 fan.starting ++ endsOfElements 0 fan.refill.queued := by
    simp only [endsOfElements_eq_map, ← List.map_append, Fan.starting, Fan.refill, List.take_append_drop]
  have starts : endsOfElements now fan.starting.reverse = ((endsOfElements 0 fan.starting).map (now + ·)).reverse := by
    simp only [endsOfElements_eq_map, List.map_reverse, List.map_map]
    refine congrArg List.reverse (List.map_congr_left fun element member => ?_)
    exact (unstarted element (List.mem_of_mem_take member)).ends now
  have enough : (endsOfElements 0 fan.starting).length ≤ room := by
    rw [endsOfElements_eq_map, List.length_map, Fan.starting, List.length_take, same]
    exact Nat.min_le_left _ _
  have busy : ∀ time ∈ endsOfElements now fan.running, now ≤ time :=
    fun time member => Fan.le_slots time (List.mem_append_left _ member)
  have free := assignAll_free _ busy enough
  have slots : (fan.refill.slots now).Perm (assignAll (fan.slots now) (endsOfElements 0 fan.starting)) := by
    rw [Fan.slots, Fan.slots, same]
    refine List.Perm.trans ?_ free.symm
    have left : fan.limit - (fan.starting.reverse ++ fan.running).length =
        room - (endsOfElements 0 fan.starting).length := by
      rw [endsOfElements_eq_map]
      simp only [List.length_append, List.length_reverse, List.length_map]
      omega
    rw [show fan.refill.running = fan.starting.reverse ++ fan.running from rfl,
      show fan.refill.limit = fan.limit from rfl, left, endsOfElements_eq_map, List.map_append,
      ← endsOfElements_eq_map, ← endsOfElements_eq_map, starts]
    exact ((List.reverse_perm _).append_right _).append_right _
  rw [Task.ends_fan, Task.ends_fan, queue, assignAll_append]
  exact latest_perm (assignAll_perm slots _)

/-- After starting what may start a collection runs what it may. -/
theorem refill_packed {fan : Fan Task} (bounded : fan.running.length ≤ fan.limit)
    (unstarted : ∀ element ∈ fan.queued, element.2.Unstarted) (each : ∀ element ∈ fan.running, element.2.Packed) :
    (Task.fan fan.refill).Packed := by
  refine Task.packed_fan.mpr ⟨⟨?_, .inr ?_⟩, fun element member => ?_⟩
  · simp only [Fan.refill, Fan.starting, List.length_append, List.length_reverse, List.length_take]
    omega
  · by_cases enough : fan.queued.length ≤ fan.limit - fan.running.length
    · exact .inl (List.drop_eq_nil_of_le enough)
    · right
      simp only [Fan.refill, Fan.starting, List.length_append, List.length_reverse, List.length_take]
      omega
  · rcases List.mem_append.mp member with new | old
    · exact (unstarted element (List.mem_of_mem_take (List.mem_reverse.mp new))).packed
    · exact each element old

/-- A task that will come to a value by reading what is complete, and runs what it may: the time that it takes is told
by its delays alone. -/
structure Task.Timely (lookup : Lookup) (registry : Registry) (owner : Option Key) (task : Task) : Prop where
  known : (task.value? lookup).isSome
  complete : (task.stakes owner).Complete registry
  packed : task.Packed

namespace Machine

variable {machine : Machine} {world : World} {result : Machine × World} {task : Task} {layers : List Layer} {now : Nat}
  {meanings : Lookup → Prop} {lookup : Lookup} {contents : Contents}

theorem poll_times {next : Task} (times : task.Times now next) :
    (surround machine.layers task).Times now (machine.poll next).whole :=
  times.surrounded

theorem pollWithin_times {layer : Layer} {inner : Task} (times : task.Times now (layer.around inner)) :
    (surround machine.layers task).Times now (machine.pollWithin layer inner).whole :=
  times.surrounded

theorem rest_times {next : Task} (times : task.Times now next) :
    (surround machine.layers task).Times now (machine.rest next).whole :=
  times.surrounded

/-- What is over now may be left with whatever it has come to. -/
theorem finish_times (due : task.Packed → task.ends now = now) (result : Except ResolveError Value) :
    (surround machine.layers task).Times now (machine.finish result).whole := by
  cases result with
  | ok value =>
    rw [finish_ok_whole]
    exact .surrounded fun packed => ⟨Task.packed_of_bare trivial, by simp [Node.time, due packed]⟩
  | error error => exact .surrounded fun packed => ⟨Task.packed_of_bare trivial, (due packed).symm⟩

theorem sleep_times (delay : Nat) {next : Task} (unstarted : next.Unstarted)
    (same : task.ends world.now = next.ends (world.now + delay)) :
    (surround machine.layers task).Times world.now (machine.sleep delay next world).1.whole := by
  unfold sleep
  split
  next none => exact poll_times fun _ => ⟨unstarted.packed, by rw [same, none, Nat.add_zero]⟩
  next =>
    refine rest_times fun _ => ⟨Task.packed_of_bare trivial, ?_⟩
    rw [same, Task.ends_delay, Nat.max_eq_right (Nat.le_add_right _ _)]

theorem nextPart_times (machine : Machine) (now : Nat) (before after : List (Part Task)) :
    (surround machine.layers (.join (before ++ after))).Times now (machine.nextPart before after).whole := by
  induction after generalizing before with
  | nil =>
    rw [List.append_nil]
    unfold nextPart
    split
    next values known =>
      refine finish_times (fun _ => ?_) _
      rw [parts_done known, Task.ends_join, endsOfParts_done_all]
      rfl
    next => exact Task.Times.refl _ _
  | cons part rest ih =>
    cases part with
    | done value =>
      rw [List.append_cons]
      exact ih _
    | running task => exact Task.Times.refl _ _

theorem fields_ends (now : Nat) (entity : String) (scope : Scope) (fields : List (String × Slot)) :
    endsOfParts now (fields.map fun field => .running (.field entity field.1 field.2 scope)) =
      (fields.map fun field => field.2.time scope.config.effectiveConcurrency).map (now + ·) := by
  induction fields with
  | nil => simp
  | cons field rest ih => simpa using ih

theorem recordRest_packed (type : EntityType) (scope : Scope) (done : List (String × Value))
    (stages : List (List (String × Slot))) : (recordRest type scope done stages).Packed :=
  Task.packed_inside.mpr (Task.packed_of_bare trivial)

/-- What is left of a record takes the time of the stages that are left. -/
theorem recordRest_ends (now : Nat) (type : EntityType) (scope : Scope) (done : List (String × Value))
    (stages : List (List (String × Slot))) : (recordRest type scope done stages).ends now =
      now + stagesTime scope.config.effectiveConcurrency stages := by
  simp [recordRest, Node.time, Frame.time]

theorem nextStage_times (machine : Machine) (now : Nat) (type : EntityType) (scope : Scope)
    (done : List (String × Value)) (stages : List (List (String × Slot))) :
    (surround machine.layers (recordRest type scope done stages)).Times now
      (machine.nextStage type scope done stages).whole := by
  cases stages with
  | nil => exact finish_times (fun _ => recordRest_ends now type scope done []) _
  | cons fields later =>
    refine pollWithin_times fun _ => ⟨Task.packed_inside.mpr (Task.packed_join.mpr fun task member => ?_), ?_⟩
    · obtain ⟨field, _, same⟩ := List.mem_map.mp member
      cases same
      exact Task.packed_of_bare trivial
    · rw [recordRest_ends, stagesTime_cons, ← Nat.add_assoc, ← latest_shift, ← fields_ends]
      rfl

theorem pollField_times (entity name : String) (slot : Slot) {outer scope : Scope}
    (config : scope.config = outer.config) :
    (surround machine.layers (.field entity name slot outer)).Times now
      (machine.pollField entity name slot scope world).1.whole := by
  unfold pollField
  split
  next => exact finish_times (fun _ => rfl) _
  next node => exact poll_times fun _ => ⟨Task.packed_of_bare trivial, by simp [Slot.time, config]⟩
  next => exact finish_times (fun _ => rfl) _
  next node =>
    refine pollWithin_times fun _ => ⟨Task.packed_inside.mpr (Task.packed_of_bare trivial), ?_⟩
    simp [Layer.around, Frame.time, Slot.time, config]
  next nodes =>
    refine poll_times fun _ => ⟨ofTasks_packed _ _ _, ?_⟩
    rw [ofTasks_ends, map_mapIdx_of_eq nodes _ _ (Node.time outer.config.effectiveConcurrency)
      fun position node => by simp [Scope.index, Scope.child, config]]
    simp [Slot.time, itemTimes_eq_map, Config.effectiveConcurrency, config]
  next pairs =>
    refine pollWithin_times fun _ => ⟨Task.packed_inside.mpr (ofTasks_packed _ _ _), ?_⟩
    rw [Layer.around, Task.ends_inside, ofTasks_ends, map_mapIdx_of_eq pairs _ _
      (fun pair => max (pair.1.time outer.config.effectiveConcurrency) (pair.2.time outer.config.effectiveConcurrency))
      fun position pair => by simp [latest, Scope.index, Scope.field, Scope.child, config]]
    simp [Slot.time, pairTimes_eq_map, Frame.time, Config.effectiveConcurrency, config]

theorem pollShell_times (shell : Shell) (scope : Scope) :
    (surround machine.layers (.shell shell scope)).Times world.now (machine.pollShell shell scope world).1.whole := by
  unfold pollShell
  split
  next type fields =>
    refine Task.Times.trans (.surrounded fun _ => ⟨?_, ?_⟩) (nextStage_times machine world.now type scope [] _)
    · exact recordRest_packed _ _ _ _
    · rw [recordRest_ends, Task.ends_shell, Shell.time_record]
  next tag shell => exact poll_times fun _ => ⟨Task.packed_of_bare trivial, rfl⟩
  next type value delay counter => exact sleep_times delay trivial rfl
  next => exact rest_times fun _ => ⟨Task.packed_of_bare trivial, rfl⟩
  next type node delay => exact sleep_times delay trivial (Nat.add_assoc _ _ _).symm

/-- Going into an element or out of a collection that is over. -/
theorem nextElement_times {fan : Fan Task} (tally : Tally) (full : fan.running = [] → fan.queued = [])
    (distinct : (fan.running.map (·.1)).Nodup) :
    (surround machine.layers (.fan fan)).Times now (machine.nextElement fan tally world).1.whole := by
  unfold nextElement
  split
  next =>
    split
    next empty =>
      have running : fan.running = [] := List.isEmpty_iff.mp empty
      refine finish_times (fun _ => ?_) _
      rw [Task.ends_fan, Fan.slots, full running, running, endsOfElements_eq_map, endsOfElements_eq_map]
      exact Nat.le_antisymm (latest_le_iff.mpr ⟨Nat.le_refl _, fun time member =>
        (List.eq_of_mem_replicate member).le⟩) (start_le_latest _ _)
    next => exact Task.Times.refl _ _
  next position later found =>
    split
    next => exact Task.Times.refl _ _
    next element listed =>
      exact pollWithin_times (fan_times_of_perm rfl rfl (OrderedMap.perm_of_get? distinct listed).symm)

/-- A collection that is looked at, or one of whose elements is over, goes on as a greedy schedule does. -/
theorem runFan_times {fan : Fan Task} (positive : 1 ≤ fan.limit)
    (unstarted : ∀ element ∈ fan.queued, element.2.Unstarted) (distinct : ((fan.queued ++ fan.running).map (·.1)).Nodup)
    (starts : task.Packed → fan.running.length ≤ fan.limit ∧ (∀ element ∈ fan.running, element.2.Packed) ∧
      (Task.fan fan).ends now = task.ends now) :
    (surround machine.layers task).Times now (machine.runFan fan world).1.whole := by
  refine Task.Times.trans (.surrounded fun packed => ?_)
    (nextElement_times _ (refill_full positive) (refill_distinct distinct))
  obtain ⟨bounded, each, same⟩ := starts packed
  exact ⟨refill_packed bounded unstarted each, (refill_ends now unstarted).trans same⟩

theorem pollTask_times (sound : (surround machine.layers task).Sound meanings)
    (complete : ((surround machine.layers task).stakes none).Complete world.registry) :
    (surround machine.layers task).Times world.now (machine.pollTask task world).1.whole := by
  unfold pollTask
  split
  next => exact finish_times (fun _ => rfl) _
  next type name scope =>
    obtain ⟨value, step⟩ := dereference_complete complete
    rw [step]
    exact finish_times (fun _ => rfl) _
  next => exact poll_times fun _ => ⟨Task.packed_of_bare trivial, rfl⟩
  next shell scope => exact pollShell_times shell scope
  next => exact pollWithin_times fun _ => ⟨Task.packed_inside.mpr (Task.packed_of_bare trivial), rfl⟩
  next entity name slot scope => exact pollField_times entity name slot rfl
  next due timer next =>
    have unstarted := (Task.sound_delay due timer next).mp (sound_of_surround sound)
    split
    next past => exact poll_times fun _ => ⟨unstarted.packed, by rw [Task.ends_delay, Nat.max_eq_left past]⟩
    next => exact Task.Times.refl _ _
  next => exact Task.Times.refl _ _
  next fetch ticket =>
    obtain ⟨_, _, same, _⟩ := complete_of_surround complete _ (Multiset.mem_singleton_self _)
    cases same
  next => exact Task.Times.refl _ _
  next parts => exact nextPart_times machine world.now [] parts
  next fan =>
    have proper := proper_of_surround sound
    refine runFan_times proper.positive proper.unstarted proper.distinct_started fun packed => ?_
    exact ⟨(Task.packed_fan.mp packed).1.bounded, (Task.packed_fan.mp packed).2, rfl⟩

theorem restIn_times {layer : Layer} (sound : (surround machine.layers (layer.around task)).Sound meanings) :
    (surround machine.layers (layer.around task)).Times now (machine.restIn layer task world).1.whole := by
  unfold restIn
  split
  next => exact Task.Times.refl _ _
  next before after =>
    rw [Layer.around, List.append_cons]
    exact nextPart_times machine now _ after
  next fan position tally =>
    have running := (proper_of_surround sound).distinct_running
    dsimp only
    generalize (if world.ready.contains _ then 1 else 0) = woken
    split
    · exact Task.Times.refl _ _
    · exact nextElement_times _ (fun none => absurd none (List.cons_ne_nil _ _)) running

/-- The slot of an element that is over is free now. -/
theorem finishElement_ends {fan : Fan Task} {position : Nat} {value : Value} {scope : Scope}
    (bounded : fan.running.length < fan.limit) (done : List (Nat × Value)) :
    (Task.fan { fan with done }).ends now =
      (Task.fan { fan with running := (position, .node (.literal value) scope) :: fan.running }).ends now := by
  have room : fan.limit - fan.running.length = fan.limit - (fan.running.length + 1) + 1 := by omega
  refine latest_perm (assignAll_perm ?_ _)
  simp only [endsOfElements_eq_map, List.map_cons, List.length_cons, Task.ends_node, Node.time, Nat.add_zero, room,
    List.replicate_succ, List.cons_append]
  exact List.perm_middle

theorem finishIn_times {layer : Layer} {value : Value} {scope : Scope}
    (sound : (surround machine.layers (layer.around (.node (.literal value) scope))).Sound meanings) :
    (surround machine.layers (layer.around (.node (.literal value) scope))).Times now
      (machine.finishIn layer value world).1.whole := by
  unfold finishIn
  split
  next frame =>
    unfold finishFrame
    split
    · exact finish_times (fun _ => rfl) _
    · exact finish_times (fun _ => rfl) _
    · exact finish_times (fun _ => rfl) _
    · exact finish_times (fun _ => rfl) _
    next record =>
      refine Task.Times.trans (.surrounded fun _ => ⟨?_, ?_⟩) (nextStage_times machine now _ _ _ _)
      · exact recordRest_packed _ _ _ _
      · rw [recordRest_ends]
        simp [Layer.around, Node.time, Frame.time]
  next before after =>
    refine Task.Times.trans (.surrounded fun packed => ⟨Task.packed_join.mpr fun part member => ?_, ?_⟩)
      (nextPart_times machine now _ after)
    · refine Task.packed_join.mp packed part ?_
      simp only [List.mem_append, List.mem_cons, reduceCtorEq, List.not_mem_nil, or_false] at member ⊢
      exact member.imp_right .inr
    · -- the part that is over ends now, which is when the whole ends at the earliest
      refine eq_of_forall_ge_iff fun bound => ?_
      simp only [Layer.around, Task.ends_join, latest_le_iff, endsOfParts_append, endsOfParts_done, endsOfParts_running,
        endsOfParts_nil, Task.ends_node, Node.time, Nat.add_zero, List.append_nil, List.forall_mem_append,
        List.forall_mem_cons]
      tauto
  next fan position tally =>
    have proper := proper_of_surround sound
    refine runFan_times proper.positive proper.unstarted proper.distinct_others fun packed => ?_
    obtain ⟨own, each⟩ := Task.packed_fan.mp packed
    exact ⟨Nat.le_of_succ_le own.bounded, (List.forall_mem_cons.mp each).2, finishElement_ends own.bounded _⟩

/-- A step of a machine that will come to a value by reading does not change when its operation ends. -/
theorem step_times (sound : machine.whole.Sound meanings) (known : (machine.whole.value? lookup).isSome)
    (complete : (machine.whole.stakes none).Complete world.registry) (step : machine.step world = some result) :
    machine.whole.Times world.now result.1.whole := by
  cases step_steps step with
  | poll => exact pollTask_times sound complete
  | @rest operation task layer layers =>
    exact @restIn_times ⟨operation, .rest task, layers⟩ world task _ _ layer sound
  | @finish operation own layer layers =>
    exact @finishIn_times ⟨operation, .finish (.ok own), layers⟩ world _ _ layer own _ sound
  | fail =>
    rw [failing_value? sound] at known
    cases known

/-- A machine whose operation will come to a value by reading goes on to one whose operation does, and that ends at
the same time. -/
theorem step_timely {roots : List Key} {others : Multiset Hold} (account : machine.Account contents roots others world)
    (timely : machine.whole.Timely (contents.valueOf []) world.registry none)
    (step : machine.step world = some result) :
    result.1.whole.Timely (contents.valueOf []) result.2.registry none ∧
      result.1.whole.ends result.2.now = machine.whole.ends world.now := by
  obtain ⟨value, known⟩ := Option.isSome_iff_exists.mp timely.known
  obtain ⟨finds, reads⟩ := step_reads account.whole.sound known timely.complete step
  obtain ⟨packed, same⟩ := step_times account.whole.sound timely.known timely.complete step timely.packed
  refine ⟨⟨?_, ?_, packed⟩, ?_⟩
  · rw [(step_advances account step).tracks.same _ rfl]
    exact timely.known
  · rw [reads.registry]
    exact timely.complete.mono reads.fewer
  · rw [(step_onward step).now]
    exact same

end Machine

end Blueprint
