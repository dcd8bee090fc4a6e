import Blueprint.Proofs.Machine.Step
import Blueprint.Proofs.Task.Whole
/-! Most steps of a machine only open or close a part of its task. They leave the registry alone, start
no initialization, and lead to a task with the same stakes and the same value. -/

namespace Blueprint

/-- The entries whose initialization was begun, oldest first. -/
def World.begun (world : World) : List Key :=
  world.events.filterMap fun
    | .initializing key => some key
    | _ => none

/-- What a step leaves alone that has nothing to do with the registry. -/
structure World.Calm (before after : World) : Prop where
  registry : after.registry = before.registry
  fresh : before.fresh ≤ after.fresh
  begun : after.begun = before.begun

namespace World.Calm

variable {first second third : World}

theorem refl (world : World) : world.Calm world := ⟨rfl, Nat.le_refl _, rfl⟩

theorem trans (left : first.Calm second) (right : second.Calm third) : first.Calm third :=
  ⟨right.registry.trans left.registry, left.fresh.trans right.fresh, right.begun.trans left.begun⟩

theorem wake (world : World) (strands : List Strand) : world.Calm (world.wake strands) :=
  ⟨rfl, Nat.le_refl _, rfl⟩

theorem wakeAll (world : World) (waiters : List Waiter) : world.Calm (world.wakeAll waiters) := by
  induction waiters generalizing world with
  | nil => exact refl world
  | cons waiter rest ih => exact (wake world waiter.strands).trans (ih _)

theorem take (world : World) : world.Calm world.take.2 := ⟨rfl, Nat.le_succ _, rfl⟩

theorem setTimer (world : World) (due : Nat) (strands : List Strand) :
    world.Calm (world.setTimer due strands).2 :=
  ⟨rfl, Nat.le_succ _, rfl⟩

theorem dropTimer (world : World) (id : Nat) : world.Calm (world.dropTimer id) :=
  ⟨rfl, Nat.le_refl _, rfl⟩

theorem forget (world : World) (fan : Nat) : world.Calm (world.forget fan) :=
  ⟨rfl, Nat.le_refl _, rfl⟩

theorem emit (world : World) {event : Event} (other : ∀ key, event ≠ .initializing key) :
    world.Calm (world.emit event) := by
  refine ⟨rfl, Nat.le_refl _, ?_⟩
  cases event <;> simp_all [World.begun, World.emit]

theorem advanceTo (world : World) (time : Nat) : world.Calm (world.advanceTo time) := by
  have waking : ∀ (timers : List Timer) (world : World),
      world.Calm (timers.foldl (fun world timer => world.wake timer.strands) world) := by
    intro timers
    induction timers with
    | nil => exact refl
    | cons timer rest ih => exact fun world => (wake world timer.strands).trans (ih _)
  have moved : world.Calm { world with
      now := time, timers := world.timers.filter fun timer => time < timer.due } :=
    ⟨rfl, Nat.le_refl _, rfl⟩
  exact moved.trans (waking _ _)

theorem nextElement? {world after : World} {fan position : Nat}
    (found : world.nextElement? fan = some (position, after)) : world.Calm after := by
  unfold World.nextElement? at found
  split at found
  · cases found
    exact ⟨rfl, Nat.le_refl _, rfl⟩
  · cases found

end World.Calm

/-- A step that only opens or closes a part of a task. It fails only where a field was not set. -/
structure Quietly (meanings : Lookup → Prop) (task : Task) (world : World) (result : Machine × World) :
    Prop where
  calm : world.Calm result.2
  alike : task.Alike meanings result.1.whole
  unset : ∀ error, result.1.control = .finish (.error error) →
    ∃ entity name path, error = .missingField entity name path

namespace Quietly

variable {meanings : Lookup → Prop} {first second : Task} {world between : World}
  {result : Machine × World}

theorem of_alike (alike : first.Alike meanings second) (rest : Quietly meanings second world result) :
    Quietly meanings first world result :=
  ⟨rest.calm, alike.trans rest.alike, rest.unset⟩

theorem of_calm (calm : world.Calm between) (rest : Quietly meanings first between result) :
    Quietly meanings first world result :=
  ⟨calm.trans rest.calm, rest.alike, rest.unset⟩

end Quietly

section Ways

variable {meanings : Lookup → Prop} {machine : Machine} {first second : Task} {world after : World}

/-- A machine goes into another form of its task. -/
theorem Machine.poll_quiet (calm : world.Calm after)
    (sound : (surround machine.layers first).Sound meanings) (alike : first.Alike meanings second) :
    Quietly meanings (surround machine.layers first) world (machine.poll second, after) :=
  ⟨calm, .surrounded sound alike, by simp⟩

theorem Machine.pollWithin_quiet {layer : Layer} (calm : world.Calm after)
    (sound : (surround machine.layers first).Sound meanings)
    (alike : first.Alike meanings (layer.around second)) :
    Quietly meanings (surround machine.layers first) world (machine.pollWithin layer second, after) :=
  ⟨calm, .surrounded sound alike, by simp⟩

theorem Machine.rest_quiet (calm : world.Calm after)
    (sound : (surround machine.layers first).Sound meanings) (alike : first.Alike meanings second) :
    Quietly meanings (surround machine.layers first) world (machine.rest second, after) :=
  ⟨calm, .surrounded sound alike, by simp⟩

/-- A value that is there is as good as a literal. -/
theorem Machine.finish_quiet {value : Value} (calm : world.Calm after)
    (sound : (surround machine.layers first).Sound meanings) (idle : ∀ owner, first.stakes owner = 0)
    (known : ∀ lookup, first.value? lookup = some value) :
    Quietly meanings (surround machine.layers first) world (machine.finish (.ok value), after) := by
  refine ⟨calm, ?_, by simp⟩
  rw [finish_ok_whole]
  refine Task.Alike.surrounded sound ⟨fun owner => ?_, by simp, fun lookup => ?_⟩
  · simp [Node.references, idle]
  · simp [Node.evaluate, known]

end Ways

/-- Parts that all have values are done. -/
theorem parts_done {parts : List (Part Task)} {values : List Value}
    (known : parts.mapM Part.value? = some values) : parts = values.map .done := by
  rw [mapM_eq_collect, collect_eq_some_iff] at known
  induction parts generalizing values with
  | nil => cases values <;> simp_all
  | cons part rest ih =>
    cases values with
    | nil => simp at known
    | cons value later =>
      simp only [List.map_cons, List.cons.injEq] at known
      cases part with
      | running task => simp [Part.value?] at known
      | done own =>
        rw [List.map_cons, ← ih known.2]
        simpa [Part.value?] using known.1

@[simp] theorem stakesOfParts_done_all (owner : Option Key) (values : List Value) :
    stakesOfParts owner (values.map .done) = 0 := by
  induction values with
  | nil => simp
  | cons value rest ih => simp [ih]

@[simp] theorem valuesOfParts_done_all (lookup : Lookup) (values : List Value) :
    valuesOfParts lookup (values.map .done) = values.map some := by
  induction values with
  | nil => simp
  | cons value rest ih => simp [ih]

namespace Machine

variable {meanings : Lookup → Prop}

theorem sleep_quiet (machine : Machine) (delay : Nat) {next : Task} (unstarted : next.Unstarted)
    (world : World) (sound : (surround machine.layers next).Sound meanings) :
    Quietly meanings (surround machine.layers next) world (machine.sleep delay next world) := by
  unfold sleep
  split
  · exact poll_quiet (.refl world) sound (.refl (sound_of_surround sound))
  · exact rest_quiet (.setTimer world _ _) sound
      ⟨fun owner => by simp, (Task.sound_delay _ _ next).mpr unstarted, fun lookup => by simp⟩

theorem nextPart_quiet (machine : Machine) (before after : List (Part Task)) (world : World)
    (sound : (surround machine.layers (.join (before ++ after))).Sound meanings) :
    Quietly meanings (surround machine.layers (.join (before ++ after))) world
      (machine.nextPart before after, world) := by
  induction after generalizing before with
  | nil =>
    rw [List.append_nil] at sound ⊢
    unfold nextPart
    split
    next values known =>
      rw [parts_done known] at sound ⊢
      exact finish_quiet (.refl world) sound (fun owner => by simp) fun lookup => by
        simp [collect_eq_some_iff.mpr rfl]
    next => exact rest_quiet (.refl world) sound (.refl (sound_of_surround sound))
  | cons part rest ih =>
    cases part with
    | done value =>
      have reorder : before ++ .done value :: rest = (before ++ [.done value]) ++ rest := by simp
      rw [reorder] at sound ⊢
      exact ih _ sound
    | running task => exact pollWithin_quiet (.refl world) sound (.refl (sound_of_surround sound))

/-- The rest of a record as a task: the fields of some stages are there, those of others to come. -/
def recordRest (type : EntityType) (scope : Scope) (done : List (String × Value))
    (stages : List (List (String × Slot))) : Task :=
  .inside (.stage ⟨type, scope, done, [], stages⟩) (.node (.literal (.list [])) scope)

theorem recordRest_sound (type : EntityType) (scope : Scope) (done : List (String × Value))
    (stages : List (List (String × Slot))) : (recordRest type scope done stages).Sound meanings := by
  simp [recordRest]

theorem collect_named (lookup : Lookup) (fields : List (String × Slot)) :
    collect (fields.map fun field => named (field.1, field.2.evaluate lookup)) =
      (collect (fields.map fun field => field.2.evaluate lookup)).map
        fun values => (fields.map (·.1)).zip values := by
  induction fields with
  | nil => simp
  | cons field rest ih =>
    rw [List.map_cons, collect_cons, ih, List.map_cons, List.map_cons, collect_cons, named]
    cases field.2.evaluate lookup with
    | none => rfl
    | some value => cases collect (rest.map fun field => field.2.evaluate lookup) <;> rfl

theorem nextStage_quiet (machine : Machine) (type : EntityType) (scope : Scope)
    (done : List (String × Value)) (stages : List (List (String × Slot))) (world : World)
    (sound : (surround machine.layers (recordRest type scope done stages)).Sound meanings) :
    Quietly meanings (surround machine.layers (recordRest type scope done stages)) world
      (machine.nextStage type scope done stages, world) := by
  cases stages with
  | nil =>
    refine finish_quiet (.refl world) sound (fun owner => ?_) fun lookup => ?_
    · simp [recordRest, Frame.stakes, Node.references]
    · simp [recordRest, Frame.value?, Node.evaluate, Value.items]
  | cons fields later =>
    refine pollWithin_quiet (.refl world) sound ⟨fun owner => ?_, ?_, fun lookup => ?_⟩
    · have tasks : ∀ fields : List (String × Slot), stakesOfParts owner (fields.map fun field =>
          .running (.field type.entityName field.1 field.2 scope)) =
            pendings owner (fields.flatMap fun field => field.2.references) scope.anchor := by
        intro fields
        induction fields with
        | nil => simp
        | cons field rest ih => simp [ih]
      simp [Layer.around, Frame.stakes, Frame.owner, Node.references, recordRest, tasks,
        add_comm]
    · have tasks : ∀ fields : List (String × Slot), SoundParts meanings (fields.map fun field =>
          .running (.field type.entityName field.1 field.2 scope)) := by
        intro fields
        induction fields with
        | nil => simp
        | cons field rest ih => simp [ih]
      simp [Layer.around, tasks]
    · have tasks : ∀ fields : List (String × Slot), valuesOfParts lookup (fields.map fun field =>
          .running (.field type.entityName field.1 field.2 scope)) =
            fields.map fun field => field.2.evaluate lookup := by
        intro fields
        induction fields with
        | nil => simp
        | cons field rest ih => simp [ih]
      simp only [Layer.around, Task.value?_inside, Task.value?_join, recordRest, Frame.value?, tasks,
        Task.value?_node, Node.evaluate, Value.items, Option.bind_some, List.flatten_cons, List.map_append,
        collect_append, collect_named]
      cases collect (fields.map fun field => field.2.evaluate lookup) with
      | none => rfl
      | some values => simp [Function.comp_def]

/-- Collections that differ only in where an element is listed, or in whether it is done or a literal. -/
theorem fan_alike {first second : Fan Task} (sound : (Task.fan first).Sound meanings)
    (size : second.size = first.size) (limit : second.limit = first.limit)
    (queued : ∀ element ∈ second.queued, element ∈ first.queued)
    (stakes : ∀ owner, (Task.fan second).stakes owner = (Task.fan first).stakes owner)
    (values : ∀ lookup, (Task.elementValues lookup second).Perm (Task.elementValues lookup first))
    (elements : SoundElements meanings second.queued ∧ SoundElements meanings second.running) :
    (Task.fan first).Alike meanings (Task.fan second) := by
  rw [Task.sound_fan] at sound
  have positions : second.positions.Perm first.positions := by
    have keys := (values fun _ => none).map (·.1)
    rwa [Task.elementValues_keys, Task.elementValues_keys] at keys
  have proper : second.Proper :=
    ⟨limit ▸ sound.1.positive, size ▸ positions.trans sound.1.whole,
      fun element member => sound.1.unstarted element (queued element member)⟩
  refine ⟨stakes, (Task.sound_fan second).mpr ⟨proper, elements⟩, fun lookup => ?_⟩
  rw [Task.value?_fan, Task.value?_fan, size]
  refine gathered_perm ?_ (values lookup)
  rw [Task.elementValues_keys]
  exact proper.distinct

/-- Starting elements and looking at them in another order changes nothing. -/
theorem fan_alike_of_perm {first second : Fan Task} (sound : (Task.fan first).Sound meanings)
    (size : second.size = first.size) (limit : second.limit = first.limit)
    (done : second.done = first.done) (queued : ∀ element ∈ second.queued, element ∈ first.queued)
    (same : (second.queued ++ second.running).Perm (first.queued ++ first.running)) :
    (Task.fan first).Alike meanings (Task.fan second) := by
  have elements := (Task.sound_fan first).mp sound |>.2
  have each : ∀ element ∈ second.queued ++ second.running, element.2.Sound meanings := by
    intro element member
    rcases List.mem_append.mp (same.mem_iff.mp member) with queued | running
    · exact soundElements_iff.mp elements.1 element queued
    · exact soundElements_iff.mp elements.2 element running
  refine fan_alike sound size limit queued (fun owner => ?_) (fun lookup => ?_) ?_
  · rw [Task.stakes_fan, Task.stakes_fan, ← stakesOfElements_append, ← stakesOfElements_append]
    exact stakesOfElements_perm owner same
  · simp only [Task.elementValues, valuesOfElements_eq_map, ← List.map_append, done]
    exact (same.map _).append_right _
  · simp only [soundElements_iff]
    exact ⟨fun element member => each element (List.mem_append_left _ member),
      fun element member => each element (List.mem_append_right _ member)⟩

theorem nextElement_quiet (machine : Machine) (fan : Fan Task) (tally : Tally) (world : World)
    (full : fan.running = [] → fan.queued = [])
    (sound : (surround machine.layers (.fan fan)).Sound meanings) :
    Quietly meanings (surround machine.layers (.fan fan)) world
      (machine.nextElement fan tally world) := by
  have proper := proper_of_surround sound
  unfold nextElement
  split
  next =>
    split
    next empty =>
      have running : fan.running = [] := List.isEmpty_iff.mp empty
      refine finish_quiet (.refl world) sound (fun owner => ?_) fun lookup => ?_
      · simp [running, full running]
      · rw [Task.value?_fan, gathered_done proper (full running) running]
    next => exact rest_quiet (.refl world) sound (.refl (sound_of_surround sound))
  next position after found =>
    have calm := World.Calm.nextElement? found
    split
    next => exact rest_quiet (calm.trans (.wake after _)) sound (.refl (sound_of_surround sound))
    next task listed =>
      refine pollWithin_quiet calm sound ?_
      exact fan_alike_of_perm (sound_of_surround sound) rfl rfl rfl (fun _ member => member)
        ((OrderedMap.perm_of_get? proper.distinct_running listed).symm.append_left _)

theorem refill_perm (fan : Fan Task) :
    (fan.refill.queued ++ fan.refill.running).Perm (fan.queued ++ fan.running) := by
  rw [Fan.refill, Fan.starting]
  have started : (fan.queued.drop (fan.limit - fan.running.length) ++
      (fan.queued.take (fan.limit - fan.running.length)).reverse).Perm fan.queued := by
    refine List.perm_append_comm.trans ?_
    refine (List.Perm.append_right _ (List.reverse_perm _)).trans ?_
    rw [List.take_append_drop]
  rw [← List.append_assoc]
  exact started.append_right _

theorem refill_distinct {fan : Fan Task} (distinct : ((fan.queued ++ fan.running).map (·.1)).Nodup) :
    (fan.refill.running.map (·.1)).Nodup :=
  (((refill_perm fan).map (·.1)).nodup_iff.mpr distinct).sublist ((List.sublist_append_right _ _).map _)

/-- A collection that starts what it may runs nothing only if nothing is left to start. -/
theorem refill_full {fan : Fan Task} (positive : 1 ≤ fan.limit) :
    fan.refill.running = [] → fan.refill.queued = [] := by
  intro empty
  simp only [Fan.refill, Fan.starting, List.append_eq_nil_iff, List.reverse_eq_nil_iff] at empty ⊢
  rw [empty.2, List.length_nil, Nat.sub_zero] at *
  rcases List.take_eq_nil_iff.mp empty.1 with none | nothing
  · omega
  · simp [nothing]

theorem runFan_quiet (machine : Machine) (fan : Fan Task) (world : World)
    (sound : (surround machine.layers (.fan fan)).Sound meanings) :
    Quietly meanings (surround machine.layers (.fan fan)) world (machine.runFan fan world) := by
  have inner := sound_of_surround sound
  have alike : (surround machine.layers (.fan fan)).Alike meanings (surround machine.layers (.fan fan.refill)) :=
    .surrounded sound (fan_alike_of_perm inner rfl rfl rfl (fun _ => List.mem_of_mem_drop) (refill_perm fan))
  have positive := (Task.sound_fan fan).mp inner |>.1.positive
  unfold runFan
  refine .of_alike alike (.of_calm ?_
    (machine.nextElement_quiet fan.refill _ _ (refill_full positive) alike.sound))
  exact ⟨rfl, Nat.le_refl _, rfl⟩

/-- Numbering the elements of a list says nothing about what does not depend on the numbers. -/
theorem map_mapIdx_of_eq {α β γ : Type} (items : List α) (number : Nat → α → β) (view : β → γ)
    (plain : α → γ) (same : ∀ position item, view (number position item) = plain item) :
    (items.mapIdx number).map view = items.map plain := by
  apply List.ext_getElem <;> simp [same]

theorem ofTasks_positions (tasks : List Task) :
    (tasks.mapIdx fun position task => (position, task)).map (·.1) = List.range tasks.length := by
  apply List.ext_getElem <;> simp

theorem ofTasks_proper (id limit : Nat) {tasks : List Task} (unstarted : ∀ task ∈ tasks, task.Unstarted) :
    (Fan.ofTasks id limit tasks).Proper := by
  refine ⟨Nat.le_max_right _ _, ?_, fun element member => ?_⟩
  · simp only [Fan.positions, Fan.ofTasks, List.map_nil, List.append_nil, ofTasks_positions]
    exact .refl _
  · obtain ⟨position, inside, rfl⟩ := List.mem_mapIdx.mp member
    exact unstarted _ (List.getElem_mem inside)

theorem ofTasks_sound (id limit : Nat) {tasks : List Task} (unstarted : ∀ task ∈ tasks, task.Unstarted) :
    (Task.fan (.ofTasks id limit tasks)).Sound meanings := by
  rw [Task.sound_fan]
  refine ⟨ofTasks_proper id limit unstarted, soundElements_iff.mpr fun element member => ?_, ?_⟩
  · obtain ⟨position, inside, rfl⟩ := List.mem_mapIdx.mp member
    exact (unstarted _ (List.getElem_mem inside)).sound
  · simp [Fan.ofTasks, SoundElements]

theorem ofTasks_stakes (id limit : Nat) (tasks : List Task) (owner : Option Key) :
    (Task.fan (.ofTasks id limit tasks)).stakes owner = (tasks.map (Task.stakes owner)).sum := by
  have elements : ∀ elements : List (Nat × Task),
      stakesOfElements owner elements = (elements.map fun element => element.2.stakes owner).sum := by
    intro elements
    induction elements with
    | nil => simp
    | cons element rest ih => simp [ih]
  rw [Task.stakes_fan, Fan.ofTasks, stakesOfElements_nil, add_zero, elements]
  exact congrArg List.sum (map_mapIdx_of_eq tasks _ _ _ fun _ _ => rfl)

theorem ofTasks_value (id limit : Nat) (tasks : List Task) (lookup : Lookup) :
    (Task.fan (.ofTasks id limit tasks)).value? lookup =
      (collect (tasks.map (Task.value? lookup))).map .list := by
  have entries : Task.elementValues lookup (.ofTasks id limit tasks) =
      tasks.mapIdx fun position task => (position, task.value? lookup) := by
    simp only [Task.elementValues, Fan.ofTasks, valuesOfElements_eq_map, List.map_nil, List.append_nil]
    apply List.ext_getElem <;> simp
  rw [Task.value?_fan, gathered, entries]
  congr 2
  have distinct : ((tasks.mapIdx fun position task => (position, task.value? lookup)).map (·.1)).Nodup := by
    have numbers : (tasks.mapIdx fun position task => (position, task.value? lookup)).map (·.1) =
        List.range tasks.length := by apply List.ext_getElem <;> simp
    rw [numbers]
    exact List.nodup_range
  refine List.ext_getElem (by simp [Fan.ofTasks]) fun position first second => ?_
  have inside : position < tasks.length := by simpa using second
  have member : (position, tasks[position].value? lookup) ∈
      tasks.mapIdx fun position task => (position, task.value? lookup) :=
    List.mem_mapIdx.mpr ⟨position, inside, rfl⟩
  have found := OrderedMap.get?_of_mem distinct member
  simp [found]

/-- The pairs in a list of lists of two. -/
theorem pairs_of_pairs (items : List (Value × Value)) :
    pairs (.list (items.map fun item => .list [item.1, item.2])) = items := by
  induction items with
  | nil => rfl
  | cons item rest ih => simp [pairs]

/-- A map is made of its pairs, each of which is made of its two parts. -/
theorem keyed_alike (id limit : Nat) (entity name : String) (pairs : List (Node × Node)) {outer scope : Scope}
    (anchor : scope.anchor = outer.anchor) :
    Task.Alike meanings (.field entity name (.keyed pairs) outer)
      (.inside (.folding scope.path) (.fan (.ofTasks id limit (pairs.mapIdx fun position pair => .join
        [.running (.node pair.1 ((scope.index position).field "key")),
          .running (.node pair.2 ((scope.index position).field "value"))])))) := by
  refine ⟨fun owner => ?_, ?_, fun lookup => ?_⟩
  · have elements := map_mapIdx_of_eq pairs
      (fun position pair => .join
        [.running (.node pair.1 ((scope.index position).field "key")),
          .running (.node pair.2 ((scope.index position).field "value"))])
      (Task.stakes owner)
      (fun pair => pendings owner (pair.1.references ++ pair.2.references) outer.anchor)
      fun position pair => by simp [anchor]
    simp only [Task.stakes_inside, Frame.stakes, Frame.owner, zero_add, ofTasks_stakes,
      elements, Task.stakes_field, Slot.references, pairReferences_eq_flatMap, pendings_flatMap]
  · rw [Task.sound_inside]
    refine ⟨fun fetch same => Frame.noConfusion same, ofTasks_sound _ _ fun task member => ?_⟩
    obtain ⟨position, inside, rfl⟩ := List.mem_mapIdx.mp member
    simp [Task.Unstarted]
  · have elements := map_mapIdx_of_eq pairs
      (fun position pair => .join
        [.running (.node pair.1 ((scope.index position).field "key")),
          .running (.node pair.2 ((scope.index position).field "value"))])
      (Task.value? lookup)
      (fun pair => ((pair.1.evaluate lookup).bind fun first =>
        (pair.2.evaluate lookup).map (first, ·)).map fun pair => .list [pair.1, pair.2])
      fun position pair => by
        simp only [Task.value?_join, valuesOfParts_running, valuesOfParts_nil, Task.value?_node]
        cases pair.1.evaluate lookup <;> cases pair.2.evaluate lookup <;> rfl
    have folded := collect_map_map (fun pair : Value × Value => Value.list [pair.1, pair.2])
      (evaluatePairs lookup pairs)
    simp only [evaluatePairs_eq_map, List.map_map, Function.comp_def] at folded
    simp only [Task.value?_inside, Frame.value?, ofTasks_value, elements, folded,
      Task.value?_field, Slot.evaluate, evaluatePairs_eq_map, Option.map_map]
    congr 1
    funext items
    simp [pairs_of_pairs]

theorem pollField_quiet (machine : Machine) (entity name : String) (slot : Slot)
    {outer scope : Scope} (anchor : scope.anchor = outer.anchor) (world : World)
    (sound : (surround machine.layers (.field entity name slot outer)).Sound meanings) :
    Quietly meanings (surround machine.layers (.field entity name slot outer)) world
      (machine.pollField entity name slot scope world) := by
  unfold pollField
  split
  next =>
    refine ⟨.refl world, ?_, fun error same => by cases same; exact ⟨_, _, _, rfl⟩⟩
    rw [finish_error_whole]
    refine Task.Alike.surrounded sound ⟨fun owner => ?_, by simp, fun lookup => ?_⟩
    · simp [Slot.references]
    · simp [Slot.evaluate]
  next node =>
    refine poll_quiet (.refl world) sound ⟨fun owner => ?_, by simp, fun lookup => ?_⟩
    · simp [Slot.references, anchor]
    · simp [Slot.evaluate]
  next =>
    exact finish_quiet (.refl world) sound (fun owner => by simp [Slot.references])
      fun lookup => by simp [Slot.evaluate]
  next node =>
    refine pollWithin_quiet (.refl world) sound ⟨fun owner => ?_, ?_, fun lookup => ?_⟩
    · simp [Layer.around, Frame.stakes, Frame.owner, Slot.references, anchor]
    · simp [Layer.around]
    · simp [Layer.around, Frame.value?, Slot.evaluate]
  next nodes =>
    refine poll_quiet (.take world) sound ⟨fun owner => ?_, ?_, fun lookup => ?_⟩
    · rw [ofTasks_stakes, map_mapIdx_of_eq nodes _ _
        (fun node => pendings owner node.references outer.anchor)
        fun position node => by simp [anchor]]
      simp only [Task.stakes_field, Slot.references, itemReferences_eq_flatMap, pendings_flatMap]
    · refine ofTasks_sound _ _ fun task member => ?_
      obtain ⟨position, inside, rfl⟩ := List.mem_mapIdx.mp member
      simp [Task.Unstarted]
    · rw [ofTasks_value, map_mapIdx_of_eq nodes _ _ (Node.evaluate lookup)
        fun position node => by simp]
      simp [Slot.evaluate, evaluateItems_eq_map]
  next pairs =>
    exact pollWithin_quiet (.take world) sound (keyed_alike _ _ entity name pairs anchor)

theorem pollShell_quiet (machine : Machine) (shell : Shell) (scope : Scope) (world : World)
    (sound : (surround machine.layers (.shell shell scope)).Sound meanings) :
    Quietly meanings (surround machine.layers (.shell shell scope)) world
      (machine.pollShell shell scope world) := by
  unfold pollShell
  split
  next type fields =>
    have alike : (Task.shell (.record type fields) scope).Alike meanings
        (recordRest type scope [] (type.plan fields)) := by
      refine ⟨fun owner => ?_, recordRest_sound _ _ _ _, fun lookup => ?_⟩
      · simp [recordRest, Frame.stakes, Node.references, Shell.references_record]
      · simp only [recordRest, Task.value?_inside, Frame.value?, Task.value?_node, Node.evaluate,
          Task.value?_shell, Shell.evaluate_record, Value.items, Option.bind_some, named, List.nil_append,
          List.zip_nil_left]
    have whole := Task.Alike.surrounded sound alike
    exact .of_alike whole (machine.nextStage_quiet type scope [] _ world whole.sound)
  next tag shell =>
    refine poll_quiet (.refl world) sound ⟨fun owner => ?_, by simp, fun lookup => ?_⟩
    · simp [Shell.references]
    · simp [Shell.evaluate]
  next type value delay counter =>
    have alike : (Task.shell (.counted type value delay counter) scope).Alike meanings
        (.node (.literal value) scope) := by
      refine ⟨fun owner => ?_, by simp, fun lookup => ?_⟩
      · simp [Shell.references, Node.references]
      · simp [Shell.evaluate, Node.evaluate]
    have whole := Task.Alike.surrounded sound alike
    have calm : world.Calm (world.count counter) := ⟨rfl, Nat.le_refl _, rfl⟩
    exact .of_alike whole (.of_calm calm (machine.sleep_quiet delay (Task.unstarted_node _ _) _ whole.sound))
  next counter =>
    refine rest_quiet ⟨rfl, Nat.le_refl _, rfl⟩ sound ⟨fun owner => ?_, by simp, fun lookup => ?_⟩
    · simp [Shell.references]
    · simp [Shell.evaluate]
  next type node delay =>
    have alike : (Task.shell (.delayed type node delay) scope).Alike meanings (.node node scope) := by
      refine ⟨fun owner => ?_, by simp, fun lookup => ?_⟩
      · simp [Shell.references]
      · simp [Shell.evaluate]
    have whole := Task.Alike.surrounded sound alike
    exact .of_alike whole (machine.sleep_quiet delay (Task.unstarted_node _ _) world whole.sound)

/-- The tasks at which a machine turns to the registry. -/
def Consults : Task → Prop
  | .node (.reference _ _) _ | .waiting _ _ => True
  | _ => False

theorem pollTask_quiet (machine : Machine) (task : Task) (world : World) (alone : ¬ Consults task)
    (sound : (surround machine.layers task).Sound meanings) :
    Quietly meanings (surround machine.layers task) world (machine.pollTask task world) := by
  unfold pollTask
  split
  next value scope =>
    exact finish_quiet (.refl world) sound (fun owner => by simp [Node.references])
      fun lookup => by simp [Node.evaluate]
  next => exact absurd trivial alone
  next shell scope =>
    refine poll_quiet ?_ sound ⟨fun owner => by simp [Node.references], by simp, fun lookup => ?_⟩
    · split
      · exact .emit world (by simp)
      · exact .refl world
    · simp [Node.evaluate]
  next shell scope => exact machine.pollShell_quiet shell scope world sound
  next tag shell scope =>
    refine pollWithin_quiet (.emit world (by simp)) sound ⟨fun owner => ?_, ?_, fun lookup => ?_⟩
    · simp [Layer.around, Frame.stakes, Frame.owner]
    · simp [Layer.around]
    · simp [Layer.around, Frame.value?]
  next entity name slot scope =>
    exact machine.pollField_quiet entity name slot (scope.field_anchor name) world sound
  next due timer next =>
    split
    · refine poll_quiet (.dropTimer world timer) sound ⟨fun owner => by simp, ?_, fun lookup => by simp⟩
      exact ((Task.sound_delay due timer next).mp (sound_of_surround sound)).sound
    · exact rest_quiet (.refl world) sound (.refl (sound_of_surround sound))
  next => exact rest_quiet (.refl world) sound (.refl (sound_of_surround sound))
  next => exact absurd trivial alone
  next frame task => exact pollWithin_quiet (.refl world) sound (.refl (sound_of_surround sound))
  next parts => exact machine.nextPart_quiet [] parts world sound
  next fan => exact machine.runFan_quiet fan world sound

theorem restIn_quiet (machine : Machine) (layer : Layer) (task : Task) (world : World)
    (sound : (surround machine.layers (layer.around task)).Sound meanings) :
    Quietly meanings (surround machine.layers (layer.around task)) world
      (machine.restIn layer task world) := by
  unfold restIn
  split
  next frame => exact rest_quiet (.refl world) sound (.refl (sound_of_surround sound))
  next before after =>
    have reorder : before ++ .running task :: after = (before ++ [.running task]) ++ after := by simp
    rw [Layer.around, reorder] at sound ⊢
    exact machine.nextPart_quiet _ after world sound
  next fan position tally =>
    have goes : ∀ tally : Tally, Quietly meanings (surround machine.layers
        (.fan { fan with running := (position, task) :: fan.running })) world
        (if 2 ≤ tally.yielded ∨ tally.polled = tally.total then
          (machine.rest (.fan { fan with running := (position, task) :: fan.running }),
            world.wake machine.strands)
        else machine.nextElement { fan with running := (position, task) :: fan.running } tally world) := by
      intro tally
      split
      · exact rest_quiet (.wake world _) sound (.refl (sound_of_surround sound))
      · exact machine.nextElement_quiet _ _ world (fun empty => absurd empty (List.cons_ne_nil _ _)) sound
    exact goes _

theorem fold_calm (path : Path) (items : List (Value × Value)) (world : World) :
    (fold path items world).1 = Value.ofPairs items ∧ world.Calm (fold path items world).2 :=
  ⟨fold_value path items world, fold_keeps .refl .trans (fun world => .emit world (by simp)) items world⟩

theorem finishFrame_quiet (machine : Machine) (frame : Frame) (value : Value) (world : World)
    (free : ∀ fetch, frame ≠ .fetching fetch) {scope : Scope}
    (sound : (surround machine.layers (.inside frame (.node (.literal value) scope))).Sound meanings) :
    Quietly meanings (surround machine.layers (.inside frame (.node (.literal value) scope))) world
      (machine.finishFrame frame value world) := by
  unfold finishFrame
  split
  next =>
    exact finish_quiet (.refl world) sound (fun owner => by simp [Frame.stakes, Node.references])
      fun lookup => by simp [Frame.value?, Node.evaluate]
  next tag =>
    exact finish_quiet (.refl world) sound (fun owner => by simp [Frame.stakes, Node.references])
      fun lookup => by simp [Frame.value?, Node.evaluate]
  next path =>
    have folded := fold_calm path (pairs value) world
    change Quietly meanings _ world
      (machine.finish (.ok (fold path (pairs value) world).1), (fold path (pairs value) world).2)
    rw [folded.1]
    exact finish_quiet folded.2 sound (fun owner => by simp [Frame.stakes, Node.references])
      fun lookup => by simp [Frame.value?, Node.evaluate]
  next fetch => exact absurd rfl (free fetch)
  next record =>
    have alike : (Task.inside (.stage record) (.node (.literal value) scope)).Alike meanings
        (recordRest record.type record.scope (record.done ++ record.names.zip value.items)
          record.later) := by
      refine ⟨fun owner => ?_, recordRest_sound _ _ _ _, fun lookup => ?_⟩
      · simp [recordRest, Frame.stakes, Node.references]
      · simp [recordRest, Frame.value?, Node.evaluate, Value.items]
    have whole := Task.Alike.surrounded sound alike
    exact .of_alike whole (machine.nextStage_quiet _ _ _ _ world whole.sound)

theorem finishIn_quiet (machine : Machine) (layer : Layer) (value : Value) (world : World)
    (free : ∀ fetch, layer ≠ .inside (.fetching fetch)) {scope : Scope}
    (sound : (surround machine.layers (layer.around (.node (.literal value) scope))).Sound meanings) :
    Quietly meanings (surround machine.layers (layer.around (.node (.literal value) scope))) world
      (machine.finishIn layer value world) := by
  unfold finishIn
  split
  next frame =>
    exact machine.finishFrame_quiet frame value world (fun fetch same => free fetch (same ▸ rfl)) sound
  next before after =>
    have alike : (Task.join (before ++ .running (.node (.literal value) scope) :: after)).Alike meanings
        (.join ((before ++ [.done value]) ++ after)) := by
      refine ⟨fun owner => ?_, ?_, fun lookup => ?_⟩
      · simp [Node.references]
      · have inner := sound_of_surround sound
        simp only [Layer.around, Task.sound_join, soundParts_append, soundParts_running] at inner
        simp [inner.1, inner.2.2]
      · simp [Node.evaluate]
    have whole := Task.Alike.surrounded sound alike
    exact .of_alike whole (machine.nextPart_quiet _ after world whole.sound)
  next fan position tally =>
    have inner := sound_of_surround sound
    have elements := ((Task.sound_fan _).mp inner).2
    have alike : (Task.fan { fan with
        running := (position, .node (.literal value) scope) :: fan.running }).Alike meanings
          (.fan { fan with done := fan.done ++ [(position, value)] }) := by
      refine fan_alike inner rfl rfl (fun _ member => member) (fun owner => ?_) (fun lookup => ?_)
        ⟨elements.1, ?_⟩
      · simp [Node.references]
      · simp only [Task.elementValues, valuesOfElements_eq_map, List.map_cons, List.map_append,
          List.map_nil, Task.value?_node, Node.evaluate]
        rw [← List.append_assoc]
        refine List.perm_append_comm.trans ?_
        rw [List.cons_append, List.nil_append, List.append_assoc, List.append_assoc, List.cons_append]
        exact List.perm_middle.symm
      · exact soundElements_iff.mpr fun element member =>
          soundElements_iff.mp elements.2 element (List.mem_cons_of_mem _ member)
    have whole := Task.Alike.surrounded sound alike
    have calm : world.Calm { world with ready := world.ready.erase (.element fan.id position) } :=
      ⟨rfl, Nat.le_refl _, rfl⟩
    exact .of_alike whole (.of_calm calm (machine.runFan_quiet _ _ whole.sound))

end Machine

end Blueprint
