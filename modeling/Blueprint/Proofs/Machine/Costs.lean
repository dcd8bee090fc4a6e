import Blueprint.Proofs.Machine.Tended
import Blueprint.Proofs.Task.Effort
/-! What the steps of a machine cost. A step either spends effort of the task, or only looks for what may go
on; then it uses up strands that were queued or timers that were set, or goes further on its way. -/

namespace Blueprint

/-- What it takes to run a strand: for an element, as much as it may cost to wake its collection again. -/
def price (marks : Marks) : Strand → Nat
  | .operation _ => 1
  | .element id _ => ((marks.filter fun mark => mark.2 = .fan id).map fun mark => toll mark.1).sum

/-- All that the strands that are queued, and those that timers will wake, may cost. -/
def World.pressure (marks : Marks) (world : World) : Nat :=
  (world.ready.map (price marks)).sum + (world.timers.map fun timer => toll timer.strands).sum

section Pressure

variable {marks : Marks} {world : World} {chain : List Strand}

theorem price_of_fan (distinct : marks.numbers.Nodup) {id : Nat} (member : (chain, .fan id) ∈ marks)
    (position : Nat) : price marks (.element id position) = toll chain := by
  obtain ⟨rest, rfl⟩ := Multiset.exists_cons_of_mem member
  rw [Marks.numbers_cons_fan, Multiset.nodup_cons] at distinct
  have alone : (rest.filter fun mark => mark.2 = .fan id) = 0 := by
    refine Multiset.filter_eq_nil.mpr fun mark listed same => distinct.1 ?_
    exact Marks.mem_numbers.mpr ⟨mark, listed, by rw [same]; rfl⟩
  simp [price, alone]

/-- What waking a chain of strands puts into the queue costs less than the toll of the chain. -/
theorem price_wake (cheap : ∀ id position outer, (.element id position :: outer) <:+ chain →
    price marks (.element id position) ≤ toll outer) (ready : List Strand) :
    ((Strand.wake ready chain).map (price marks)).sum + 1 ≤ (ready.map (price marks)).sum + toll chain := by
  induction chain generalizing ready with
  | nil => simp [Strand.wake, toll]
  | cons strand outer ih =>
    rw [Strand.wake]
    split
    · have := toll_pos (strand :: outer)
      omega
    · have first : price marks strand ≤ toll outer := by
        cases strand with
        | operation number => exact toll_pos outer
        | element id position => exact cheap id position outer (List.suffix_refl _)
      have later := ih (fun id position rest inside =>
        cheap id position rest (inside.trans (List.suffix_cons _ _))) (ready ++ [strand])
      rw [List.map_append, List.sum_append, List.map_singleton, List.sum_singleton] at later
      rw [toll_cons]
      omega

theorem price_erase (marks : Marks) {strand : Strand} {ready : List Strand} (queued : strand ∈ ready) :
    ((ready.erase strand).map (price marks)).sum + price marks strand = (ready.map (price marks)).sum := by
  have split := (List.perm_cons_erase queued).map (price marks)
  rw [split.sum_eq, List.map_cons, List.sum_cons, Nat.add_comm]

theorem pressure_wake (world : World) (distinct : marks.numbers.Nodup) (headed : marks.Headed)
    (rooted : marks.Rooted chain) :
    (world.wake chain).pressure marks + 1 ≤ world.pressure marks + toll chain := by
  have := price_wake (fun id position outer inside =>
    (price_of_fan distinct (headed.fan_mem rooted inside) position).le) world.ready
  simp only [World.pressure, World.wake]
  omega

theorem pressure_erase (marks : Marks) {strand : Strand} (queued : strand ∈ world.ready) :
    { world with ready := world.ready.erase strand }.pressure marks + price marks strand =
      world.pressure marks := by
  have := price_erase marks queued
  simp only [World.pressure]
  omega

end Pressure

namespace Machine

/-- A step that only looks for what may go on. The world is as it was but for the strands that are queued. -/
structure Looks (marks : Marks) (before : Task) (credit trip : Nat) (world : World)
    (result : Machine × World) : Prop where
  effort : result.1.whole.effort = before.effort
  marked : result.1.marks = before.marks [.operation result.1.operation]
  stakes : result.1.whole.stakes none = before.stakes none
  kept : ∃ ready, result.2 = { world with ready }
  less : result.2.pressure marks + result.1.credit < world.pressure marks + credit ∨
    result.2.pressure marks + result.1.credit ≤ world.pressure marks + credit ∧ result.1.trip < trip

/-- A step that spends effort or only looks for what may go on. -/
def Eases (marks : Marks) (before : Task) (credit trip : Nat) (world : World)
    (result : Machine × World) : Prop :=
  Looks marks before credit trip world result ∨ result.1.whole.effort < before.effort

variable {marks : Marks} {before : Task} {credit trip : Nat} {machine : Machine} {world : World}
  {result : Machine × World}

theorem Eases.effort_le (eases : Eases marks before credit trip world result) :
    result.1.whole.effort ≤ before.effort := by
  rcases eases with looks | spent
  · exact looks.effort.le
  · exact spent.le

/-- A machine that has gone on its way in a task that stays as it is. -/
theorem eases_of_whole {after : Machine} (same : after.whole = before)
    (cheap : after.credit ≤ credit) (near : after.trip < trip) :
    Eases marks before credit trip world (after, world) :=
  .inl ⟨congrArg _ same, by rw [Machine.marks, same], by rw [same], ⟨world.ready, rfl⟩,
    .inr ⟨by simpa using cheap, near⟩⟩

theorem finish_effort (value : Value) : (machine.finish (.ok value)).whole.effort =
    2 + (machine.layers.map Layer.effort).sum := by
  rw [finish_ok_whole, effort_surround]
  rfl

theorem fail_effort (error : ResolveError) : (machine.finish (.error error)).whole.effort =
    (machine.layers.map Layer.effort).sum := by
  rw [finish_error_whole, effort_surround]
  exact Nat.zero_add _

theorem poll_effort (task : Task) : (machine.poll task).whole.effort =
    task.effort + (machine.layers.map Layer.effort).sum := effort_surround _ _

theorem rest_effort (task : Task) : (machine.rest task).whole.effort =
    task.effort + (machine.layers.map Layer.effort).sum := effort_surround _ _

theorem pollWithin_effort (layer : Layer) (task : Task) : (machine.pollWithin layer task).whole.effort =
    task.effort + layer.effort + (machine.layers.map Layer.effort).sum := by
  rw [pollWithin_whole, effort_surround, layer.effort_around]

theorem nextPart_eases (machine : Machine) (before : List (Part Task)) {after : List (Part Task)}
    (cheap : creditAround machine.operation machine.layers ≤ credit)
    (near : sizeOf after + (machine.layers.map Layer.trip).sum ≤ trip) :
    Eases marks (surround machine.layers (.join (before ++ after))) credit trip world
      (machine.nextPart before after, world) := by
  induction after generalizing before with
  | nil =>
    rw [List.append_nil]
    unfold nextPart
    split
    · right
      rw [finish_effort, effort_surround, Task.effort_join]
      omega
    · refine eases_of_whole rfl cheap ?_
      have : sizeOf ([] : List (Part Task)) = 1 := rfl
      simp only [Machine.trip, rest, Control.trip]
      omega
  | cons part later ih =>
    cases part with
    | done value =>
      have reorder : before ++ .done value :: later = (before ++ [.done value]) ++ later := by simp
      rw [reorder]
      refine ih _ (le_trans ?_ near)
      simp only [List.cons.sizeOf_spec]
      omega
    | running task =>
      refine eases_of_whole rfl ?_ ?_
      · simpa [Machine.credit, nextPart, pollWithin, creditAround, Layer.credit] using cheap
      · simp only [List.cons.sizeOf_spec, Part.running.sizeOf_spec] at near
        simp only [Machine.trip, nextPart, pollWithin, Control.trip, Layer.trip, List.map_cons, List.sum_cons]
        omega

/-- A stage of a record and the stages after it cost what was reckoned for them. -/
theorem nextStage_effort (type : EntityType) (scope : Scope) (done : List (String × Value))
    (stages : List (List (String × Slot))) : (machine.nextStage type scope done stages).whole.effort ≤
      2 + stagesEffort stages + (machine.layers.map Layer.effort).sum := by
  cases stages with
  | nil =>
    rw [nextStage, finish_effort]
    omega
  | cons fields later =>
    have parts : ∀ fields : List (String × Slot), effortOfParts (fields.map fun field =>
        .running (.field type.entityName field.1 field.2 scope)) =
          (fields.map fun field => field.2.effort + 1).sum := by
      intro fields
      induction fields with
      | nil => simp
      | cons field rest ih => simp [ih]
    have total : stagesEffort (fields :: later) =
        4 + (fields.map fun field => field.2.effort + 1).sum + stagesEffort later := by
      simp [stagesEffort]
    rw [nextStage, pollWithin_effort, Task.effort_join, parts, total]
    simp only [Layer.effort, Frame.effort]
    omega

theorem sleep_effort (delay : Nat) (next : Task) : (machine.sleep delay next world).1.whole.effort ≤
    next.effort + 1 + (machine.layers.map Layer.effort).sum := by
  unfold sleep
  split
  · rw [poll_effort]
    omega
  · dsimp only
    rw [rest_effort, Task.effort_delay]

theorem ofTasks_effort (id limit : Nat) (tasks : List Task) : (Task.fan (.ofTasks id limit tasks)).effort =
    3 + (tasks.map fun task => task.effort + 1).sum := by
  have elements : effortOfElements (tasks.mapIdx fun position task => (position, task)) =
      (tasks.map Task.effort).sum := by
    rw [effortOfElements_eq_sum]
    exact congrArg List.sum (map_mapIdx_of_eq tasks _ _ _ fun _ _ => rfl)
  rw [Task.effort_fan, Fan.ofTasks, elements, effortOfElements_nil, List.length_mapIdx, List.sum_map_add]
  simp

theorem pollField_effort (entity name : String) (slot : Slot) (scope : Scope) :
    (machine.pollField entity name slot scope world).1.whole.effort ≤
      slot.effort + (machine.layers.map Layer.effort).sum := by
  unfold pollField
  split
  · rw [fail_effort]
    omega
  · rw [poll_effort, Task.effort_node, Slot.effort]
  · rw [finish_effort, Slot.effort]
  · rw [pollWithin_effort, Task.effort_node, Slot.effort]
    rfl
  next nodes =>
    have elements := map_mapIdx_of_eq nodes (fun position node => Task.node node (scope.index position))
      (fun task => task.effort + 1) (fun node => node.effort + 1) fun _ _ => rfl
    dsimp only
    rw [poll_effort, ofTasks_effort, elements, Slot.effort, itemEfforts_eq_sum]
  next pairs =>
    have elements := map_mapIdx_of_eq pairs
      (fun position pair => Task.join
        [.running (.node pair.1 ((scope.index position).field "key")),
          .running (.node pair.2 ((scope.index position).field "value"))])
      (fun task => task.effort + 1) (fun pair => pair.1.effort + pair.2.effort + 4)
      fun position pair => by simp; omega
    dsimp only
    rw [pollWithin_effort, ofTasks_effort, elements, Slot.effort, pairEfforts_eq_sum]
    simp only [Layer.effort, Frame.effort]
    omega

theorem pollShell_effort (shell : Shell) (scope : Scope) :
    (machine.pollShell shell scope world).1.whole.effort <
      shell.effort + (machine.layers.map Layer.effort).sum := by
  unfold pollShell
  split
  next type fields =>
    have := machine.nextStage_effort type scope [] (type.plan fields)
    rw [Shell.effort_record]
    dsimp only
    omega
  next tag shell =>
    rw [poll_effort, Task.effort_variant, Shell.effort]
    omega
  next type value delay counter =>
    have := @sleep_effort machine (world.count counter) delay (.node (.literal value) scope)
    rw [Task.effort_node, Node.effort] at this
    rw [Shell.effort]
    omega
  next =>
    rw [rest_effort, Task.effort_forever, Shell.effort]
    omega
  next type node delay =>
    have := @sleep_effort machine world delay (.node node scope)
    rw [Task.effort_node] at this
    rw [Shell.effort]
    omega

/-- Elements that are listed in another order make the same collection. -/
theorem fan_reordered {layers : List Layer} {fan : Fan Task} {running : List (Nat × Task)} (operation : Nat)
    (same : fan.running.Perm running) :
    (surround layers (.fan { fan with running })).effort = (surround layers (.fan fan)).effort ∧
      (surround layers (.fan { fan with running })).marks [.operation operation] =
        (surround layers (.fan fan)).marks [.operation operation] ∧
      (surround layers (.fan { fan with running })).stakes none = (surround layers (.fan fan)).stakes none := by
  have empty : running.isEmpty = fan.running.isEmpty := by
    rw [Bool.eq_iff_iff, List.isEmpty_iff_length_eq_zero, List.isEmpty_iff_length_eq_zero, same.length_eq]
  refine ⟨?_, ?_, ?_⟩
  · rw [effort_surround, effort_surround, Task.effort_fan, Task.effort_fan, effortOfElements_perm same]
  · rw [marks_surround, marks_surround, Task.marks_fan, Task.marks_fan, marksOfElements_perm _ _ same]
    simp only [empty]
  · rw [stakes_surround, stakes_surround, Task.stakes_fan, Task.stakes_fan, stakesOfElements_perm _ same]

section Collections

variable (machine : Machine) (fan : Fan Task) (unique : marks.numbers.Nodup) (headed : marks.Headed)
  (listed : (machine.strands, .fan fan.id) ∈ marks)
  (cheap : creditAround machine.operation machine.layers ≤ credit)
  (near : (machine.layers.map Layer.trip).sum < trip)

include unique headed listed cheap near

theorem nextElement_eases (distinct : (fan.running.map (·.1)).Nodup) (tally : Tally) :
    Eases marks (surround machine.layers (.fan fan)) credit trip world
      (machine.nextElement fan tally world) := by
  unfold nextElement World.nextElement?
  cases found : world.ready.find? (Strand.isElementOf fan.id) with
  | none =>
    dsimp only
    split
    next empty =>
      right
      rw [finish_effort, effort_surround, Task.effort_fan]
      omega
    next => exact eases_of_whole rfl cheap (by simpa [Machine.trip, rest, Control.trip] using near)
  | some strand =>
    have queued := List.mem_of_find?_eq_some found
    have own := List.find?_some found
    obtain ⟨position, rfl⟩ : ∃ position, strand = .element fan.id position := by
      cases strand with
      | operation number => cases own
      | element id position => exact ⟨position, by rw [beq_iff_eq.mp own]⟩
    have paid := pressure_erase marks queued
    rw [price_of_fan unique listed] at paid
    have positive := toll_pos machine.strands
    dsimp only
    split
    next =>
      left
      refine ⟨rfl, rfl, rfl, ⟨_, rfl⟩, .inl ?_⟩
      have woken := pressure_wake { world with
        ready := world.ready.erase (.element fan.id position) } unique headed (headed _ listed)
      have same : (machine.rest (.fan fan)).credit = creditAround machine.operation machine.layers := rfl
      dsimp only at woken ⊢
      omega
    next task present =>
      left
      obtain ⟨effort, marked, stakes⟩ := fan_reordered machine.operation
        (OrderedMap.perm_of_get? distinct present)
      refine ⟨effort, marked, stakes, ⟨_, rfl⟩, .inl ?_⟩
      simp only [Machine.credit, pollWithin, creditAround, Layer.credit]
      have same : toll (Layer.strands machine.layers machine.operation) = toll machine.strands := rfl
      omega

theorem runFan_eases (world : World) (proper : fan.Proper) :
    Eases marks (surround machine.layers (.fan fan)) credit trip world
    (machine.runFan fan world) := by
  have positions := refill_distinct proper.distinct_started
  have starts : fan.starting = [] ∨ (surround machine.layers (.fan fan.refill)).effort <
      (surround machine.layers (.fan fan)).effort := by
    rw [effort_surround, effort_surround, Task.effort_fan, Task.effort_fan]
    by_cases none : fan.starting = []
    · exact .inl none
    · right
      have same := effortOfElements_perm (refill_perm fan)
      rw [effortOfElements_append, effortOfElements_append] at same
      have fewer : fan.refill.queued.length < fan.queued.length := by
        have both := congrArg List.length (List.take_append_drop (fan.limit - fan.running.length) fan.queued)
        have some : 0 < fan.starting.length := List.length_pos_iff.mpr none
        rw [List.length_append] at both
        simp only [Fan.starting] at some
        simp only [Fan.refill]
        omega
      omega
  unfold runFan
  rcases starts with none | less
  · have same : fan.refill = fan := by
      have untouched : fan.queued.drop (fan.limit - fan.running.length) = fan.queued := by
        rcases List.take_eq_nil_iff.mp none with zero | empty
        · rw [zero, List.drop_zero]
        · rw [empty, List.drop_nil]
      rw [Fan.refill, untouched, none]
      rfl
    simp only [same, none, List.map_nil, List.append_nil] at positions ⊢
    exact nextElement_eases machine fan unique headed listed cheap near positions _
  · right
    have eases : Eases marks (surround machine.layers (.fan fan.refill)) credit trip { world with
        ready := world.ready ++ fan.starting.map fun element => .element fan.id element.1 }
        (machine.runFan fan world) :=
      nextElement_eases machine fan.refill unique headed listed cheap near positions _
    exact lt_of_le_of_lt eases.effort_le less

end Collections

section Ways

variable {operation : Nat} {layers : List Layer} {layer : Layer} {task : Task} {rest : Marks}

/-- A look at a task that does not turn to the registry. -/
theorem pollTask_eases (alone : ¬ Consults task) (proper : ∀ fan, task = .fan fan → fan.Proper)
    (minded : Minded ⟨operation, .poll task, layers⟩ rest world) :
    Eases (Machine.marks ⟨operation, .poll task, layers⟩ + rest) (surround layers task)
      (creditAround operation layers) (sizeOf task + (layers.map Layer.trip).sum) world
      (pollTask ⟨operation, .poll task, layers⟩ task world) := by
  have headed := minded.marks_headed
  have unique := minded.watched.distinct
  unfold pollTask
  split
  next value scope =>
    left
    refine ⟨?_, ?_, ?_, ⟨world.ready, rfl⟩, .inr ⟨le_refl _, ?_⟩⟩
    · rw [finish_ok_whole, effort_surround, effort_surround]
      rfl
    · rw [Machine.marks, finish_ok_whole, marks_surround, marks_surround]
      rfl
    · rw [finish_ok_whole, stakes_surround, stakes_surround]
      simp [Node.references]
    · simp only [Machine.trip, finish, Control.trip, Task.node.sizeOf_spec]
      omega
  next => exact absurd trivial alone
  next shell scope =>
    right
    dsimp only
    rw [poll_effort, effort_surround, Task.effort_shell, Task.effort_node, Node.effort]
    dsimp only
    omega
  next shell scope =>
    right
    rw [effort_surround]
    exact pollShell_effort shell scope
  next tag shell scope =>
    right
    dsimp only
    rw [pollWithin_effort, effort_surround, Task.effort_shell, Task.effort_variant]
    dsimp only [Layer.effort, Frame.effort]
    omega
  next entity name slot scope =>
    right
    have := @pollField_effort ⟨operation, .poll (.field entity name slot scope), layers⟩ world entity name slot
      (scope.field name)
    rw [effort_surround, Task.effort_field]
    dsimp only at this
    omega
  next due timer next =>
    split
    · right
      dsimp only
      rw [poll_effort, effort_surround, Task.effort_delay]
      dsimp only
      omega
    · refine eases_of_whole rfl (le_refl _) ?_
      simp only [Machine.trip, Machine.rest, Control.trip, Task.delay.sizeOf_spec]
      omega
  next =>
    refine eases_of_whole rfl (le_refl _) ?_
    simp only [Machine.trip, Machine.rest, Control.trip, Task.forever.sizeOf_spec]
    omega
  next => exact absurd trivial alone
  next frame task =>
    refine eases_of_whole rfl ?_ ?_
    · simp [Machine.credit, pollWithin, creditAround, Layer.credit]
    · simp only [Machine.trip, pollWithin, Control.trip, Layer.trip, List.map_cons, List.sum_cons,
        Task.inside.sizeOf_spec]
      have : 0 < sizeOf frame := by cases frame <;> simp +arith
      omega
  next parts =>
    refine nextPart_eases ⟨operation, .poll (.join parts), layers⟩ [] (le_refl _) ?_
    simp only [Task.join.sizeOf_spec]
    omega
  next fan =>
    refine runFan_eases ⟨operation, .poll (.fan fan), layers⟩ fan unique headed ?_ (le_refl _) ?_ _ (proper fan rfl)
    · rw [marks_eq, add_assoc]
      refine Multiset.mem_add.mpr (.inl ?_)
      simp [Control.task, Task.marks_fan]
    · simp only [Task.fan.sizeOf_spec]
      omega

theorem restIn_eases (sound : ∀ fan position tally, layer = .fanning fan position tally →
      ((position, task) :: fan.running |>.map (·.1)).Nodup)
    (minded : Minded ⟨operation, .rest task, layer :: layers⟩ rest world) :
    Eases (Machine.marks ⟨operation, .rest task, layer :: layers⟩ + rest) (surround layers (layer.around task))
      (Machine.credit ⟨operation, .rest task, layer :: layers⟩)
      (Machine.trip ⟨operation, .rest task, layer :: layers⟩) world
      (restIn ⟨operation, .rest task, layers⟩ layer task world) := by
  have headed := minded.marks_headed
  have unique := minded.watched.distinct
  have way : Machine.trip ⟨operation, .rest task, layer :: layers⟩ =
      layer.trip + (layers.map Layer.trip).sum := by simp [Machine.trip, Control.trip]
  cases layer with
  | inside frame =>
    refine eases_of_whole rfl (by simp [Machine.credit, Machine.rest, creditAround, Layer.credit]) ?_
    rw [way]
    simp [Machine.trip, Machine.rest, Control.trip, Layer.trip]
  | joining before after =>
    have reorder : before ++ .running task :: after = (before ++ [.running task]) ++ after := by simp
    rw [Layer.around, reorder]
    refine nextPart_eases ⟨operation, .rest task, layers⟩ (before ++ [.running task]) ?_ ?_
    · simp [Machine.credit, creditAround, Layer.credit]
    · rw [way, Layer.trip]
  | fanning fan position tally =>
    have listed : (Layer.strands layers operation, .fan fan.id) ∈
        Machine.marks ⟨operation, .rest task, .fanning fan position tally :: layers⟩ + rest := mem_marks_of_fanning
    have cost : Machine.credit ⟨operation, .rest task, .fanning fan position tally :: layers⟩ =
        toll (Layer.strands layers operation) - 1 + creditAround operation layers := rfl
    have goes : ∀ tally' : Tally, Eases
        (Machine.marks ⟨operation, .rest task, .fanning fan position tally :: layers⟩ + rest)
        (surround layers (.fan { fan with running := (position, task) :: fan.running }))
        (Machine.credit ⟨operation, .rest task, .fanning fan position tally :: layers⟩)
        (Machine.trip ⟨operation, .rest task, .fanning fan position tally :: layers⟩) world
        (if 2 ≤ tally'.yielded ∨ tally'.polled = tally'.total then
          (Machine.rest ⟨operation, .rest task, layers⟩
              (.fan { fan with running := (position, task) :: fan.running }),
            world.wake (Layer.strands layers operation))
        else nextElement ⟨operation, .rest task, layers⟩
          { fan with running := (position, task) :: fan.running } tally' world) := by
      intro tally'
      split
      · left
        have woken := pressure_wake world unique headed (headed _ listed)
        refine ⟨rfl, rfl, rfl, ⟨_, rfl⟩, .inr ⟨?_, ?_⟩⟩
        · have same : (Machine.rest ⟨operation, .rest task, layers⟩
            (.fan { fan with running := (position, task) :: fan.running })).credit =
              creditAround operation layers := rfl
          dsimp only at woken ⊢
          omega
        · rw [way]
          simp [Machine.trip, Machine.rest, Control.trip, Layer.trip]
      · refine nextElement_eases ⟨operation, .rest task, layers⟩
          { fan with running := (position, task) :: fan.running } unique headed listed ?_ ?_
          (sound fan position tally rfl) tally'
        · rw [cost]
          exact Nat.le_add_left _ _
        · rw [way, Layer.trip]
          dsimp only
          omega
    exact goes _

end Ways

end Machine

end Blueprint
