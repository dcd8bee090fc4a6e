import Blueprint.Proofs.Machine.Dropping
/-! A step of a machine leaves nobody behind. The marks of its operation agree with the world again, those
that it has passed by are awake, and so are those of all other operations. -/

namespace Blueprint

/-- A task all of whose marks say that it has to be looked at where it is. -/
def Task.Idle (task : Task) : Prop :=
  ∀ chain, ∀ mark ∈ task.marks chain, mark = (chain, .idle)

theorem Task.Unstarted.idle {task : Task} (unstarted : task.Unstarted) : task.Idle :=
  fun _ _ member => unstarted.marks member

theorem Task.Idle.beyond {task : Task} (idle : task.Idle) (chain : List Strand) :
    (task.marks chain).beyond chain = 0 :=
  Multiset.filter_eq_nil.mpr fun mark member different => different (by rw [idle chain mark member])

theorem idle_join {parts : List (Part Task)} (each : ∀ task, .running task ∈ parts → task.Idle) :
    (Task.join parts).Idle := by
  intro chain mark member
  rw [Task.marks_join] at member
  split at member
  · simpa using member
  · obtain ⟨task, listed, inner⟩ := mem_marksOfParts.mp member
    exact each task listed chain mark inner

namespace Marks.Watched

variable {marks : Marks} {world : World}

theorem add_idle (watched : marks.Watched world) {extra : Marks} (idle : ∀ mark ∈ extra, mark.2 = .idle) :
    (extra + marks).Watched world := by
  induction extra using Multiset.induction with
  | empty => simpa using watched
  | cons mark later ih =>
    obtain ⟨chain, kind⟩ := mark
    have same : kind = .idle := idle _ (Multiset.mem_cons_self _ _)
    subst same
    rw [Multiset.cons_add, idle_iff]
    exact ih fun other member => idle other (Multiset.mem_cons_of_mem member)

theorem add_task (watched : marks.Watched world) {task : Task} (idle : task.Idle) (chain : List Strand) :
    (task.marks chain + marks).Watched world :=
  watched.add_idle fun mark member => by rw [idle chain mark member]

end Marks.Watched

namespace Machine

/-- The marks around the place of a machine, those of other operations included. -/
def around (machine : Machine) (rest : Marks) : Marks :=
  marksAround machine.operation machine.layers + rest

/-- What a machine leaves behind it. -/
structure Tends (rest : Marks) (world : World) (result : Machine × World) : Prop where
  watched : (result.1.marks + rest).Watched result.2
  awake : ∀ mark ∈ result.1.asleep, Mark.Awake result.2 mark
  minds : world.Minds rest result.2

variable {machine : Machine} {rest : Marks} {world later : World} {control : Control}

theorem Tends.of_minds {result : Machine × World} (tends : Tends rest later result)
    (minds : world.Minds rest later) : Tends rest world result :=
  ⟨tends.watched, tends.awake, minds.trans tends.minds⟩

theorem around_headed (machine : Machine) (headed : rest.Headed) : (machine.around rest).Headed := by
  intro mark member
  rcases Multiset.mem_add.mp member with own | other
  · exact (Blueprint.around_headed _ _ mark own).mono fun _ found => Multiset.mem_add.mpr (.inl found)
  · exact (headed mark other).mono fun _ found => Multiset.mem_add.mpr (.inr found)

theorem around_rooted : (machine.around rest).Rooted machine.strands :=
  (Blueprint.around_rooted _ _).mono fun _ found => Multiset.mem_add.mpr (.inl found)

theorem awake_around (awake : ∀ mark ∈ asleepAround machine.operation machine.layers, Mark.Awake world mark)
    (minds : world.Minds (machine.around rest) later) :
    ∀ mark ∈ asleepAround machine.operation machine.layers, Mark.Awake later mark := fun mark member =>
  minds mark (Multiset.mem_add.mpr (.inl (Multiset.mem_of_le (asleepAround_le _ _) member))) (awake mark member)

/-- The machine stays at its place. -/
theorem tends_here (control : Control)
    (awake : ∀ mark ∈ asleepAround machine.operation machine.layers, Mark.Awake world mark)
    (minds : world.Minds (machine.around rest) later)
    (watched : (control.task.marks machine.strands + machine.around rest).Watched later)
    (inner : ∀ mark ∈ control.asleep machine.strands, Mark.Awake later mark) :
    Tends rest world ({ machine with control }, later) where
  watched := by
    rw [marks_eq, add_assoc]
    exact watched
  awake mark member := by
    rcases Multiset.mem_add.mp member with own | outer
    · exact inner mark own
    · exact awake_around awake minds mark outer
  minds := minds.mono (Multiset.le_add_left _ _)

/-- The machine goes one layer further in. -/
theorem tends_within (control : Control) (layer : Layer)
    (awake : ∀ mark ∈ asleepAround machine.operation machine.layers, Mark.Awake world mark)
    (minds : world.Minds (machine.around rest) later)
    (watched : (control.task.marks (layer.within machine.strands) +
      (layer.marks machine.strands + machine.around rest)).Watched later)
    (inner : ∀ mark ∈ control.asleep (layer.within machine.strands), Mark.Awake later mark)
    (left : ∀ mark ∈ layer.asleep machine.strands, Mark.Awake later mark) :
    Tends rest world ({ machine with control, layers := layer :: machine.layers }, later) where
  watched := by
    rw [marks_eq, strands, Layer.strands_cons, marksAround, add_assoc, add_assoc]
    exact watched
  awake mark member := by
    rw [asleep, strands, Layer.strands_cons, asleepAround, Multiset.mem_add, Multiset.mem_add] at member
    rcases member with own | passed | outer
    · exact inner mark own
    · exact left mark passed
    · exact awake_around awake minds mark outer
  minds := minds.mono (Multiset.le_add_left _ _)

section Quiet

variable (awake : ∀ mark ∈ asleepAround machine.operation machine.layers, Mark.Awake world mark)

include awake

/-- Going on with what has not been looked at. -/
theorem poll_tends {task : Task} (minds : world.Minds (machine.around rest) later)
    (watched : (machine.around rest).Watched later) (idle : task.Idle) :
    Tends rest world (machine.poll task, later) :=
  tends_here (.poll task) awake minds (watched.add_task idle _) fun mark member => by
    rw [Control.asleep, idle.beyond] at member
    simp at member

theorem pollWithin_tends {frame : Frame} {task : Task} (minds : world.Minds (machine.around rest) later)
    (watched : (machine.around rest).Watched later) (idle : task.Idle) :
    Tends rest world (machine.pollWithin (.inside frame) task, later) := by
  refine tends_within (.poll task) _ awake minds ?_ (fun mark member => ?_) fun mark member => ?_
  · rw [Layer.marks, zero_add]
    exact watched.add_task idle _
  · rw [Control.asleep, idle.beyond] at member
    simp at member
  · simp [Layer.asleep] at member

theorem finish_tends (result : Except ResolveError Value) (minds : world.Minds (machine.around rest) later)
    (watched : (machine.around rest).Watched later) : Tends rest world (machine.finish result, later) := by
  refine tends_here (.finish result) awake minds ?_ fun mark member => ?_
  · cases result with
    | ok value => exact Marks.Watched.idle_iff.mpr watched
    | error error => rwa [Control.task, Task.marks_forever, zero_add]
  · simp [Control.asleep] at member

theorem sleep_tends (delay : Nat) {next : Task} (unstarted : next.Unstarted)
    (watched : (machine.around rest).Watched world) : Tends rest world (machine.sleep delay next world) := by
  unfold sleep
  split
  · exact poll_tends awake (.refl _ _) watched unstarted.idle
  next positive =>
    have set := watched.add_timer machine.strands (world.now + delay) (by omega)
    refine tends_here (.rest (.delay (world.now + delay) world.fresh next)) awake ?_ set
      fun mark member stirred => ?_
    · exact .of_kept rfl (fun timer member => List.mem_append_left _ member) fun _ _ member => member
    · rw [Control.asleep, Task.marks_delay, Multiset.mem_singleton] at member
      subst member
      exact absurd (List.mem_append_right _ (List.mem_singleton.mpr rfl)) stirred

/-- Parts that have been looked at are awake, and so is what lies further in among the others. -/
theorem nextPart_tends {before after : List (Part Task)}
    (watched : (marksOfParts machine.strands (before ++ after) + machine.around rest).Watched world)
    (passed : ∀ mark ∈ marksOfParts machine.strands before, Mark.Awake world mark)
    (coming : ∀ mark ∈ (marksOfParts machine.strands after).beyond machine.strands, Mark.Awake world mark) :
    Tends rest world (machine.nextPart before after, world) := by
  induction after generalizing before with
  | nil =>
    rw [List.append_nil] at watched
    unfold nextPart
    split
    next values known =>
      rw [parts_done known, marksOfParts_done_all, zero_add] at watched
      exact finish_tends awake _ (.refl _ _) watched
    next open' =>
      refine tends_here (.rest (.join before)) awake (.refl _ _) ?_ fun mark member => ?_
      · rwa [Control.task, Task.marks_join_open _ open']
      · rw [Control.asleep, Task.marks_join_open _ open'] at member
        exact passed mark member
  | cons part later ih =>
    cases part with
    | done value =>
      refine ih ?_ ?_ ?_
      · simpa using watched
      · simpa using passed
      · simpa using coming
    | running task =>
      rw [marksOfParts_running, Marks.beyond_add] at coming
      refine tends_within (.poll task) (.joining before later) awake (.refl _ _) ?_
        (fun mark member => coming mark (Multiset.mem_add.mpr (.inl member))) fun mark member => ?_
      · rw [marksOfParts_append, marksOfParts_running, add_left_comm, add_assoc] at watched
        exact watched
      · rcases Multiset.mem_add.mp member with old | new
        · exact passed mark old
        · exact coming mark (Multiset.mem_add.mpr (.inr new))

theorem nextStage_tends (type : EntityType) (scope : Scope) (done : List (String × Value))
    (stages : List (List (String × Slot))) (watched : (machine.around rest).Watched world) :
    Tends rest world (machine.nextStage type scope done stages, world) := by
  cases stages with
  | nil => exact finish_tends awake _ (.refl _ _) watched
  | cons fields later =>
    refine pollWithin_tends awake (.refl _ _) watched (idle_join fun task member => ?_)
    obtain ⟨field, _, same⟩ := List.mem_map.mp member
    cases same
    exact fun chain mark inside => by simpa using inside

end Quiet

/-- Taking one strand out leaves nobody behind whom it does not call. -/
theorem minds_erase {marks : Marks} {strand : Strand} (silent : ∀ mark ∈ marks, mark.1.head? ≠ some strand) :
    world.Minds marks { world with ready := world.ready.erase strand } := by
  refine .of_ready (fun other queued => ?_) fun id position queued => .inl (List.mem_of_mem_erase queued)
  by_cases same : other = strand
  · exact .inr (same ▸ silent)
  · exact .inl ((List.mem_erase_of_ne same).mpr queued)

/-- In an element of a collection only the marks at its own place lie directly on one of its strands. -/
theorem head_of_mark {task : Task} {id place position : Nat} {chain : List Strand}
    {mark : List Strand × Mark} (foreign : id ∉ (task.marks (.element id place :: chain)).numbers)
    (member : mark ∈ task.marks (.element id place :: chain))
    (head : mark.1.head? = some (.element id position)) :
    mark.1 = .element id place :: chain ∧ place = position := by
  rcases Task.rooted_of_mark member with same | rooted
  · rw [same, List.head?_cons, Option.some.injEq, Strand.element.injEq] at head
    exact ⟨same, head.2⟩
  · obtain ⟨strands, kind⟩ := mark
    cases strands with
    | nil => cases head
    | cons first outer =>
      cases head
      exact absurd (Marks.number_of_fan rooted) foreign

/-- A mark directly on the strand of an element is one of the element there. -/
theorem position_of_mark {id position : Nat} {chain : List Strand} {elements : List (Nat × Task)}
    {mark : List Strand × Mark} (member : mark ∈ marksOfElements id chain elements)
    (same : mark.1 = .element id position :: chain) : ∃ element ∈ elements, element.1 = position := by
  obtain ⟨element, listed, inner⟩ := mem_marksOfElements.mp member
  have inside := Task.suffix_of_mark inner
  rw [same] at inside
  have equal := inside.eq_of_length (by simp)
  simp only [List.cons.injEq, Strand.element.injEq, true_and, and_true] at equal
  exact ⟨element, listed, equal⟩

section Collections

variable {fan : Fan Task}

/-- The marks of a collection whose elements are looked at in turn, with those around it. -/
def fanMarks (machine : Machine) (rest : Marks) (fan : Fan Task) : Marks :=
  (machine.strands, .fan fan.id) ::ₘ
    (marksOfElements fan.id machine.strands fan.running + machine.around rest)

theorem fan_foreign (watched : (machine.fanMarks rest fan).Watched world) :
    fan.id ∉ (marksOfElements fan.id machine.strands fan.running).numbers ∧
      fan.id ∉ (machine.around rest).numbers := by
  have distinct := watched.distinct
  rw [fanMarks, Marks.numbers_cons_fan, Multiset.nodup_cons, Marks.numbers_add, Multiset.mem_add] at distinct
  exact not_or.mp distinct.1

theorem element_foreign (watched : (machine.fanMarks rest fan).Watched world) {element : Nat × Task}
    (listed : element ∈ fan.running) :
    fan.id ∉ (element.2.marks (.element fan.id element.1 :: machine.strands)).numbers := by
  refine fun inside => (fan_foreign watched).1 ?_
  obtain ⟨mark, member, same⟩ := Marks.mem_numbers.mp inside
  exact Marks.mem_numbers.mpr ⟨mark, mem_marksOfElements.mpr ⟨element, listed, member⟩, same⟩

theorem fanMarks_headed (headed : rest.Headed) : (machine.fanMarks rest fan).Headed := by
  have base := (around_headed _ headed).add_fan (@around_rooted machine rest) fan.id
  have whole := base.add_elements (Multiset.mem_cons_self _ _) fan.running
  rwa [Multiset.add_cons] at whole

theorem fanMarks_suit (headed : rest.Headed) (watched : (machine.fanMarks rest fan).Watched world) :
    (machine.fanMarks rest fan).Suit machine.strands :=
  watched.suit (fanMarks_headed headed) (around_rooted.mono fun _ member =>
    Multiset.mem_cons_of_mem (Multiset.mem_add.mpr (.inr member)))

/-- A collection without running elements has one mark more, which does not matter. -/
theorem watched_fan (watched : (machine.fanMarks rest fan).Watched world) :
    ((Task.fan fan).marks machine.strands + machine.around rest).Watched world := by
  rw [Task.marks_fan, Multiset.cons_add, add_assoc]
  split
  · rw [Multiset.singleton_add, Multiset.cons_swap]
    exact Marks.Watched.idle_iff.mpr watched
  · rw [zero_add]
    exact watched

theorem marks_of_fan (watched : ((Task.fan fan).marks machine.strands + machine.around rest).Watched world) :
    (machine.fanMarks rest fan).Watched world := by
  rw [Task.marks_fan, Multiset.cons_add, add_assoc] at watched
  split at watched
  · rw [Multiset.singleton_add, Multiset.cons_swap] at watched
    exact Marks.Watched.idle_iff.mp watched
  · rwa [zero_add] at watched

/-- A collection that rests is awake if it is called itself and its elements are awake. -/
theorem awake_fan {chain : List Strand} (called : Called world.ready chain)
    (inner : ∀ mark ∈ marksOfElements fan.id chain fan.running, Mark.Awake world mark) :
    ∀ mark ∈ (Task.fan fan).marks chain, Mark.Awake world mark := by
  intro mark member
  rw [Task.marks_fan, Multiset.mem_cons, Multiset.mem_add] at member
  rcases member with rfl | own | element
  · exact fun _ => called
  · split at own
    · rw [Multiset.mem_singleton.mp own]
      exact fun _ => called
    · simp at own
  · exact inner mark element

/-- Taking a strand of a collection out leaves only the element behind that runs on it. -/
theorem awake_erase (watched : (machine.fanMarks rest fan).Watched world) {position : Nat} {marks : Marks}
    (below : marks ≤ marksOfElements fan.id machine.strands fan.running)
    (apart : ∀ mark ∈ marks, mark.1 ≠ .element fan.id position :: machine.strands)
    (passed : ∀ mark ∈ marksOfElements fan.id machine.strands fan.running, Mark.Awake world mark) :
    ∀ mark ∈ marks, Mark.Awake { world with ready := world.ready.erase (.element fan.id position) } mark := by
  refine fun mark member => minds_erase (fun other found head => ?_) mark member
    (passed mark (Multiset.mem_of_le below member))
  obtain ⟨element, listed, inner⟩ := mem_marksOfElements.mp (Multiset.mem_of_le below found)
  obtain ⟨same, place⟩ := head_of_mark (element_foreign watched listed) inner head
  exact apart other found (by rw [same, place])

variable (awake : ∀ mark ∈ asleepAround machine.operation machine.layers, Mark.Awake world mark)
  (headed : rest.Headed) (watched : (machine.fanMarks rest fan).Watched world)
  (passed : ∀ mark ∈ marksOfElements fan.id machine.strands fan.running, Mark.Awake world mark)

include awake watched passed

/-- A collection rests until it is woken, and no strand of it is queued. -/
theorem rest_fan_tends (silent : ∀ position, .element fan.id position ∉ world.ready)
    (busy : ¬ fan.running.isEmpty) : Tends rest world (machine.rest (.fan fan), world) := by
  refine tends_here (.rest (.fan fan)) awake (.refl _ _) (watched_fan watched)
    fun mark member stirred => ?_
  rw [Control.asleep, Task.marks_fan, if_neg busy, zero_add, Multiset.mem_cons] at member
  rcases member with rfl | inner
  · obtain ⟨position, queued⟩ := stirred
    exact absurd queued (silent position)
  · exact passed mark inner stirred

include headed

/-- A collection that wakes itself may rest. -/
theorem rest_woken_tends : Tends rest world (machine.rest (.fan fan), world.wake machine.strands) := by
  have suit := fanMarks_suit headed watched
  have minds : world.Minds (machine.fanMarks rest fan) (world.wake machine.strands) :=
    .wake (fanMarks_headed headed) suit
  have kept : (machine.fanMarks rest fan).Watched (world.wake machine.strands) :=
    watched.fewer (Nat.le_refl _) (fun _ _ member => member) rfl rfl
  have long : machine.strands ≠ [] :=
    (fanMarks_headed headed).ne_nil (Multiset.mem_cons_self (machine.strands, Mark.fan fan.id) _)
  refine tends_here (.rest (.fan fan)) awake (minds.mono ?_) (watched_fan kept)
    (awake_fan (Strand.called_wake _ long) fun mark member => ?_)
  · exact (Multiset.le_add_left _ _).trans (Multiset.le_cons_self _ _)
  · exact minds mark (Multiset.mem_cons_of_mem (Multiset.mem_add.mpr (.inl member))) (passed mark member)

theorem nextElement_tends (distinct : (fan.running.map (·.1)).Nodup) (tally : Tally) :
    Tends rest world (machine.nextElement fan tally world) := by
  unfold nextElement World.nextElement?
  cases found : world.ready.find? (Strand.isElementOf fan.id) with
  | none =>
    have silent : ∀ position, .element fan.id position ∉ world.ready := fun position queued => by
      have other := List.find?_eq_none.mp found _ queued
      simp [Strand.isElementOf] at other
    dsimp only
    split
    next empty =>
      rw [fanMarks, List.isEmpty_iff.mp empty, marksOfElements_nil, zero_add] at watched
      exact finish_tends awake _ (.refl _ _) watched.drop_fan
    next busy => exact rest_fan_tends awake watched passed silent busy
  | some strand =>
    have own := List.find?_some found
    obtain ⟨position, rfl⟩ : ∃ position, strand = .element fan.id position := by
      cases strand with
      | operation number => cases own
      | element id position => exact ⟨position, by rw [beq_iff_eq.mp own]⟩
    have outer : world.Minds (machine.around rest)
        { world with ready := world.ready.erase (.element fan.id position) } :=
      .erase (around_headed _ headed) (fan_foreign watched).2 position
    have kept : (machine.fanMarks rest fan).Watched
        { world with ready := world.ready.erase (.element fan.id position) } :=
      watched.fewer (Nat.le_refl _) (fun _ _ member => member) rfl rfl
    dsimp only
    split
    next absent =>
      have stale := OrderedMap.get?_eq_none_iff.mp absent
      refine (rest_woken_tends (awake_around awake outer) headed kept ?_).of_minds
        (outer.mono (Multiset.le_add_left _ _))
      refine awake_erase watched (le_refl _) (fun mark member same => ?_) passed
      exact stale (List.mem_map.mpr (position_of_mark member same))
    next task listed =>
      have apart : marksOfElements fan.id machine.strands fan.running =
          task.marks (.element fan.id position :: machine.strands) +
            marksOfElements fan.id machine.strands (fan.running.filter fun element => element.1 ≠ position) := by
        rw [marksOfElements_perm _ _ (OrderedMap.perm_of_get? distinct listed), marksOfElements_cons]
      refine tends_within (.poll task) (.fanning { fan with
        running := fan.running.filter fun element => element.1 ≠ position } position tally) awake outer ?_ ?_ ?_
      · rw [fanMarks, apart, add_assoc, ← Multiset.add_cons, ← Multiset.cons_add] at kept
        exact kept
      · refine awake_erase watched ?_ (fun mark member => (Multiset.mem_filter.mp member).2) passed
        rw [apart]
        exact (Marks.beyond_le _ _).trans (Multiset.le_add_right _ _)
      · refine awake_erase watched ?_ (fun mark member same => ?_) passed
        · rw [apart]
          exact Multiset.le_add_left _ _
        · obtain ⟨element, listed', equal⟩ := position_of_mark member same
          simpa [equal] using (List.mem_filter.mp listed').2

/-- A collection starts elements while there is room; these are called, and nobody else is told. -/
theorem runFan_tends (proper : fan.Proper) : Tends rest world (machine.runFan fan world) := by
  have foreign := fan_foreign watched
  have new : ∀ mark ∈ marksOfElements fan.id machine.strands fan.starting.reverse,
      ∃ element ∈ fan.starting, mark = (.element fan.id element.1 :: machine.strands, .idle) := by
    intro mark member
    obtain ⟨element, listed, inner⟩ := mem_marksOfElements.mp member
    have started := List.mem_reverse.mp listed
    exact ⟨element, started, (proper.unstarted element (List.mem_of_mem_take started)).marks inner⟩
  have same : machine.fanMarks rest fan.refill =
      marksOfElements fan.id machine.strands fan.starting.reverse + machine.fanMarks rest fan := by
    simp only [fanMarks, Fan.refill, marksOfElements_append]
    rw [Multiset.add_cons, add_assoc]
  have adds : ∀ marks : Marks, fan.id ∉ marks.numbers → world.Minds marks { world with
      ready := world.ready ++ fan.starting.map fun element => .element fan.id element.1 } := by
    refine fun marks apart => .of_ready (fun strand queued => .inl (List.mem_append_left _ queued))
      fun id position queued => ?_
    rcases List.mem_append.mp queued with old | started
    · exact .inl old
    · obtain ⟨element, _, equal⟩ := List.mem_map.mp started
      cases equal
      exact .inr apart
  have positions := refill_distinct proper.distinct_started
  have kept : (machine.fanMarks rest fan.refill).Watched { world with
      ready := world.ready ++ fan.starting.map fun element => .element fan.id element.1 } := by
    rw [same]
    refine Marks.Watched.add_idle ?_ fun mark member => ?_
    · exact watched.fewer (Nat.le_refl _) (fun _ _ member => member) rfl rfl
    · obtain ⟨element, _, equal⟩ := new mark member
      rw [equal]
  refine (nextElement_tends (awake_around awake (adds _ foreign.2)) headed kept (fun mark member => ?_)
    positions _).of_minds ((adds _ foreign.2).mono (Multiset.le_add_left _ _))
  simp only [Fan.refill, marksOfElements_append, Multiset.mem_add] at member
  rcases member with started | old
  · obtain ⟨element, listed, rfl⟩ := new mark started
    exact fun _ => ⟨_, List.mem_append_right _ (List.mem_map.mpr ⟨element, listed, rfl⟩), rfl⟩
  · exact adds _ foreign.1 mark old (passed mark old)

end Collections

end Machine

end Blueprint
