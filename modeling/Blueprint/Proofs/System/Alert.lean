import Blueprint.Proofs.Machine.Tended
import Blueprint.Proofs.System.Orderly
/-! Nobody who can go on is forgotten. In every state that can be reached, the queues and timers of the world
agree with the marks of all operations, and whoever rests and has been stirred is called. -/

namespace Blueprint

namespace Machine

variable {machine after : Machine} {world later : World}

theorem nextPart_operation (machine : Machine) (before after : List (Part Task)) :
    (machine.nextPart before after).operation = machine.operation := by
  induction after generalizing before with
  | nil =>
    unfold nextPart
    split <;> rfl
  | cons part rest ih =>
    cases part with
    | done value => exact ih _
    | running task => rfl

theorem nextStage_operation (machine : Machine) (type : EntityType) (scope : Scope)
    (done : List (String × Value)) (stages : List (List (String × Slot))) :
    (machine.nextStage type scope done stages).operation = machine.operation := by
  cases stages <;> rfl

theorem nextElement_operation (machine : Machine) (fan : Fan Task) (tally : Tally) (world : World) :
    (machine.nextElement fan tally world).1.operation = machine.operation := by
  unfold nextElement
  split
  · split <;> rfl
  · split <;> rfl

theorem beginFetch_operation (machine : Machine) (fetch : Fetch) (world : World) :
    (machine.beginFetch fetch world).1.operation = machine.operation := by
  unfold beginFetch
  split
  · split <;> rfl
  · rfl

theorem sleep_operation (machine : Machine) (delay : Nat) (next : Task) (world : World) :
    (machine.sleep delay next world).1.operation = machine.operation := by
  unfold sleep
  split <;> rfl

theorem pollTask_operation (machine : Machine) (task : Task) (world : World) :
    (machine.pollTask task world).1.operation = machine.operation := by
  unfold pollTask
  split
  · rfl
  · unfold dereference
    dsimp only
    split
    · rfl
    · rfl
    · exact beginFetch_operation _ _ _
    · rfl
  · rfl
  · unfold pollShell
    split
    · exact nextStage_operation _ _ _ _ _
    · rfl
    · exact sleep_operation _ _ _ _
    · rfl
    · exact sleep_operation _ _ _ _
  · rfl
  · unfold pollField
    split <;> rfl
  · split <;> rfl
  · rfl
  · unfold awaken
    split
    · rfl
    · rfl
    · rfl
    · exact beginFetch_operation _ _ _
  · rfl
  · exact nextPart_operation _ _ _
  · exact nextElement_operation _ _ _ _

/-- A machine works for one operation. -/
theorem step_operation (step : machine.step world = some (after, later)) :
    after.operation = machine.operation := by
  change (after, later).1.operation = machine.operation
  generalize (after, later) = result at step ⊢
  cases step_steps step with
  | poll => exact pollTask_operation _ _ _
  | @rest _ _ layer =>
    cases layer with
    | inside frame => rfl
    | joining before after => exact nextPart_operation _ _ _
    | fanning fan position tally =>
      dsimp only [restIn]
      split <;> split
      all_goals first | rfl | exact nextElement_operation _ _ _ _
  | @finish _ _ layer =>
    cases layer with
    | inside frame =>
      cases frame with
      | stage record => exact nextStage_operation _ _ _ _ _
      | _ => rfl
    | joining before after => exact nextPart_operation _ _ _
    | fanning fan position tally => exact nextElement_operation _ _ _ _
  | fail => rfl

end Machine

namespace World

/-- The timers that are due at a time, in the order in which they wake. -/
def fired (world : World) (time : Nat) : List Timer :=
  (world.timers.filter fun timer => timer.due ≤ time).mergeSort fun a b => a.due ≤ b.due

theorem mem_fired {world : World} {time : Nat} {timer : Timer} :
    timer ∈ world.fired time ↔ timer ∈ world.timers ∧ timer.due ≤ time := by
  simp [fired]

theorem advanceTo_eq (world : World) (time : Nat) : world.advanceTo time = { world with
    now := time
    timers := world.timers.filter fun timer => time < timer.due
    ready := Strand.wakeEach world.ready ((world.fired time).map Timer.strands) } := by
  have waking : ∀ (timers : List Timer) (world : World),
      timers.foldl (fun world timer => world.wake timer.strands) world =
        { world with ready := Strand.wakeEach world.ready (timers.map Timer.strands) } := by
    intro timers
    induction timers with
    | nil => exact fun _ => rfl
    | cons timer rest ih => exact fun world => ih _
  exact waking _ _

end World

/-- A new entry has no queue. -/
theorem Registry.queue_register {registry after : Registry} {key : Key} {origin : Origin}
    (accepted : registry.register key (origin.entry key) = .ok after) (other : Key) :
    after.queue other = registry.queue other := by
  obtain ⟨free, rfl⟩ := Ledger.register_ok accepted
  rw [queue, queue, entry?, OrderedMap.get?_append, ← entry?]
  cases found : registry.entry? other with
  | some entry => rfl
  | none =>
    rw [OrderedMap.get?_cons]
    split
    · cases origin <;> rfl
    · rfl

/-- The mark of the timer that watches the deadline of an operation. -/
def Operation.alarm (operation : Operation) : Marks :=
  match operation.deadline with
  | some ⟨_, due, some timer⟩ => {([.operation operation.id], .timer timer due)}
  | _ => 0

namespace Phase

def marks : Phase → Marks
  | resting operation => operation.task.marks [.operation operation.id] + operation.alarm
  | looking operation machine => machine.marks + operation.alarm
  | returned _ | dropped => 0

/-- The operation bears its number, and the marks that no look is on its way to are awake. -/
def Alert (id : Nat) (world : World) : Phase → Prop
  | resting operation => operation.id = id ∧
    ∀ mark ∈ (resting operation).marks, Mark.Awake world mark
  | looking operation machine => operation.id = id ∧ machine.operation = id ∧
    ∀ mark ∈ machine.asleep, Mark.Awake world mark
  | returned _ | dropped => True

end Phase

namespace Marks

variable {first second : Marks}

theorem Headed.add (one : first.Headed) (two : second.Headed) : (first + second).Headed := by
  intro mark member
  rcases Multiset.mem_add.mp member with left | right
  · exact (one mark left).mono fun _ found => Multiset.mem_add.mpr (.inl found)
  · exact (two mark right).mono fun _ found => Multiset.mem_add.mpr (.inr found)

theorem headed_zero : Headed 0 := by
  intro mark member
  simp at member

/-- The marks of a whole task need no others. -/
theorem headed_task (task : Task) (id : Nat) : Headed (task.marks [.operation id]) := by
  have rooted : Rooted 0 [.operation id] := rfl
  have whole := headed_zero.add_task rooted task
  rwa [add_zero] at whole

theorem headed_alarm (operation : Operation) : operation.alarm.Headed := by
  intro mark member
  unfold Operation.alarm at member
  split at member
  · rw [Multiset.mem_singleton.mp member]
    exact rfl
  · simp at member

theorem headed_phase (phase : Phase) : phase.marks.Headed := by
  cases phase with
  | resting operation => exact (headed_task _ _).add (headed_alarm operation)
  | looking operation machine => exact (headed_task _ _).add (headed_alarm operation)
  | returned | dropped => exact headed_zero

theorem headed_sum {α : Type} (items : List α) (marks : α → Marks) (each : ∀ item ∈ items, (marks item).Headed) :
    Headed ((items.map marks).sum) := by
  induction items with
  | nil => exact headed_zero
  | cons item rest ih =>
    rw [List.map_cons, List.sum_cons]
    exact (each item List.mem_cons_self).add (ih fun other member => each other (List.mem_cons_of_mem _ member))

/-- A mark directly on the strand of an operation lies in nothing else. -/
theorem chain_of_head {marks : Marks} (headed : marks.Headed) {mark : List Strand × Mark} (member : mark ∈ marks)
    {id : Nat} (head : mark.1.head? = some (.operation id)) : mark.1 = [.operation id] := by
  obtain ⟨chain, kind⟩ := mark
  cases chain with
  | nil => cases head
  | cons first outer =>
    cases head
    have alone : outer = [] := headed _ member
    rw [alone]

end Marks

namespace Phase

variable {id : Nat} {world : World} {phase : Phase}

theorem suffix_of_mark (alert : phase.Alert id world) {mark : List Strand × Mark} (member : mark ∈ phase.marks) :
    [.operation id] <:+ mark.1 := by
  have alarm : ∀ operation : Operation, operation.id = id → mark ∈ operation.alarm →
      [.operation id] <:+ mark.1 := by
    intro operation same inside
    unfold Operation.alarm at inside
    split at inside
    · rw [Multiset.mem_singleton.mp inside, same]
    · simp at inside
  cases phase with
  | resting operation =>
    rcases Multiset.mem_add.mp member with own | inside
    · have found := Task.suffix_of_mark own
      rwa [alert.1] at found
    · exact alarm operation alert.1 inside
  | looking operation machine =>
    rcases Multiset.mem_add.mp member with own | inside
    · have found := Task.suffix_of_mark own
      rwa [alert.2.1] at found
    · exact alarm operation alert.1 inside
  | returned | dropped => simp [marks] at member

/-- No mark of another operation lies directly on the strand of this one. -/
theorem head_of_other (alert : phase.Alert id world) {other : Nat} (different : other ≠ id)
    {mark : List Strand × Mark} (member : mark ∈ phase.marks) : mark.1.head? ≠ some (.operation other) := by
  intro head
  have inside := suffix_of_mark alert member
  rw [Marks.chain_of_head (Marks.headed_phase phase) member head] at inside
  have equal := inside.eq_of_length (by simp)
  simp only [List.cons.injEq, Strand.operation.injEq, and_true] at equal
  exact different equal.symm

end Phase

theorem Phase.Alert.of_minds {id : Nat} {phase : Phase} {marks : Marks} {world later : World}
    (alert : phase.Alert id world) (minds : world.Minds marks later)
    (among : ∀ mark ∈ phase.marks, mark ∈ marks) : phase.Alert id later := by
  cases phase with
  | resting operation =>
    exact ⟨alert.1, fun mark member => minds mark (among mark member) (alert.2 mark member)⟩
  | looking operation machine =>
    refine ⟨alert.1, alert.2.1, fun mark member => minds mark (among mark ?_) (alert.2.2 mark member)⟩
    refine Multiset.mem_add.mpr (.inl (Multiset.mem_of_le ?_ member))
    rw [Machine.asleep, Machine.marks_eq]
    refine add_le_add ?_ (asleepAround_le _ _)
    cases machine.control with
    | poll task => exact Marks.beyond_le _ _
    | rest task => exact le_refl _
    | finish result => exact Multiset.zero_le _
  | returned | dropped => trivial

theorem Call.operation_marks (call : Call) (id : Nat) (world : World) :
    (call.operation id world).id = id ∧ (call.operation id world).alarm = 0 ∧
      ∀ chain, (call.operation id world).task.marks chain = {(chain, .idle)} := by
  cases call with
  | resolve config node =>
    refine ⟨rfl, ?_, fun chain => rfl⟩
    cases deadline : config.deadline <;> simp [Call.operation, Operation.resolve, Operation.alarm, deadline]
  | within scope work => cases work <;> exact ⟨rfl, rfl, fun chain => rfl⟩

/-- What an action makes of the marks of one operation and of those of the others. -/
structure Phase.Minds (id : Nat) (rest : Marks) (world : World) (phase : Phase) (later : World) : Prop where
  watched : (phase.marks + rest).Watched later
  alert : phase.Alert id later
  minds : world.Minds rest later

namespace Operation

variable {rest : Marks} {world : World}

/-- The world without the timer that watches the deadline. -/
def dismiss (operation : Operation) (world : World) : World :=
  match operation.deadline.bind Deadline.timer with
  | some timer => world.dropTimer timer
  | none => world

theorem dismiss_minds (operation : Operation) (watched : (operation.alarm + rest).Watched world) :
    rest.Watched (operation.dismiss world) ∧ world.Minds rest (operation.dismiss world) := by
  unfold alarm at watched
  unfold dismiss
  split at watched
  next length due timer same =>
    have foreign := watched.foreign (Marks.number_of_timer (Multiset.mem_singleton_self _))
    simp only [same, Option.bind_some]
    exact ⟨watched.drop_timer, .dropTimer foreign⟩
  next unset =>
    have none : operation.deadline.bind Deadline.timer = none := by
      cases set : operation.deadline with
      | none => rfl
      | some deadline =>
        obtain ⟨length, due, timer⟩ := deadline
        cases timer with
        | none => rfl
        | some timer => exact absurd set (unset length due timer)
    rw [none]
    rw [zero_add] at watched
    exact ⟨watched, .refl _ _⟩

theorem close_eq (operation : Operation) (result : Except ResolveError Value) (world : World) :
    operation.close result world = (.over result, announce operation.whole result (operation.dismiss world)) := rfl

theorem announce_still (whole : Bool) (result : Except ResolveError Value) (world : World) :
    world.Still (announce whole result world) := by
  unfold announce
  split
  · split <;> exact .emit _ _
  · exact .refl world

variable {contents : Contents} {others : Multiset Hold} {meanings : Lookup → Prop}

/-- An operation that is dropped takes all its marks with it. -/
theorem cancel_minds {id : Nat} {task : Task} {operation : Operation} (sound : task.Sound meanings)
    (anchored : Stakes.Anchored (task.stakes none))
    (ledger : Ledger contents world.registry world.fresh (Stakes.holds (task.stakes none) + others))
    (headed : rest.Headed)
    (watched : (task.marks [.operation id] + (operation.alarm + rest)).Watched world) :
    rest.Watched (operation.dismiss (world.cancel task)) ∧
      world.Minds rest (operation.dismiss (world.cancel task)) := by
  obtain ⟨kept, minds⟩ := cancel_drops task none world others [.operation id] _ sound anchored ledger
    ((Marks.headed_alarm operation).add headed) rfl watched
  obtain ⟨left, dismissed⟩ := operation.dismiss_minds kept
  exact ⟨left, (minds.mono (Multiset.le_add_left _ _)).trans dismissed⟩

end Operation

namespace Process

variable {contents : Contents} {others : Multiset Hold} {rest : Marks} {world : World} {call : Call}
  {operation : Operation} {id : Nat}

theorem close_minds (result : Except ResolveError Value) (watched : (operation.alarm + rest).Watched world) :
    Phase.Minds id rest world (.of (operation.close result world).1) (operation.close result world).2 := by
  obtain ⟨left, dismissed⟩ := operation.dismiss_minds watched
  have still := Operation.announce_still operation.whole result (operation.dismiss world)
  rw [Operation.close_eq]
  refine ⟨?_, trivial, dismissed.trans (.of_still still)⟩
  rw [Phase.of, Phase.marks, zero_add]
  exact left.still still

theorem watch_minds {task : Task} (named : operation.id = id)
    (orderly : Process.Orderly contents ⟨call, .resting { operation with task }⟩)
    (ledger : Ledger contents world.registry world.fresh (Stakes.holds (task.stakes none) + others))
    (headed : rest.Headed)
    (watched : (task.marks [.operation id] + (operation.alarm + rest)).Watched world)
    (awake : ∀ mark ∈ task.marks [.operation id], Mark.Awake world mark) :
    Phase.Minds id rest world (.of ({ operation with task }.watch world).1)
      ({ operation with task }.watch world).2 := by
  subst named
  unfold Operation.watch
  dsimp only
  split
  next unset =>
    have silent : ({ operation with task } : Operation).alarm = 0 := by simp [Operation.alarm, unset]
    have quiet : operation.alarm = 0 := silent
    rw [quiet, zero_add] at watched
    refine ⟨?_, ⟨rfl, fun mark member => ?_⟩, .refl _ _⟩
    · rw [Phase.of, Phase.marks, silent, add_zero]
      exact watched
    · rw [Phase.marks, silent, add_zero] at member
      exact awake mark member
  next deadline set =>
    split
    next late =>
      obtain ⟨left, minds⟩ := Operation.cancel_minds orderly.sound
        orderly.lawful.anchored ledger headed watched
      have still := Operation.announce_still operation.whole (.error (.deadlineExceeded deadline.length))
        (operation.dismiss (world.cancel task))
      refine ⟨?_, trivial, minds.trans (.of_still still)⟩
      rw [Operation.close_eq, Phase.of, Phase.marks, zero_add]
      exact left.still still
    next early =>
      obtain ⟨length, due, timer⟩ := deadline
      cases timer with
      | some timer =>
        have alarm : operation.alarm = {([.operation operation.id], .timer timer due)} := by
          simp [Operation.alarm, set]
        refine ⟨?_, ⟨rfl, fun mark member => ?_⟩, .refl _ _⟩
        · rw [← add_assoc] at watched
          exact watched
        · rcases Multiset.mem_add.mp member with own | mine
          · exact awake mark own
          · rw [show ({ operation with task } : Operation).alarm = operation.alarm from rfl, alarm,
              Multiset.mem_singleton] at mine
            subst mine
            have clock := watched.clocks [.operation operation.id] timer due (by simp [alarm])
            exact fun stirred => absurd (clock.resolve_right early) stirred
      | none =>
        have alarm : operation.alarm = 0 := by simp [Operation.alarm, set]
        rw [alarm, zero_add] at watched
        have later := watched.add_timer [.operation operation.id] _ (Nat.lt_of_not_le early)
        have kept : ∀ marks : Marks, world.Minds marks (world.setTimer due [.operation operation.id]).2 := fun _ =>
          .of_kept rfl (fun timer member => List.mem_append_left _ member) fun _ _ member => member
        refine ⟨?_, ⟨rfl, fun mark member => ?_⟩, kept _⟩
        · rw [← Multiset.singleton_add, ← add_assoc, add_comm {_}] at later
          exact later
        · rcases Multiset.mem_add.mp member with own | mine
          · exact kept _ mark own (awake mark own)
          · rw [Multiset.mem_singleton.mp mine]
            exact fun stirred => absurd (List.mem_append_right _ (List.mem_singleton.mpr rfl)) stirred

end Process

namespace System

variable {before after system : System} {action : Action}

/-- An action of one operation leaves nobody behind. -/
theorem Changes.minds {id : Nat} {process : Process} {phase : Phase} {later : World} {others : Multiset Hold}
    {rest : Marks} (changes : Changes system action id process phase later)
    (orderly : process.Orderly system.registered)
    (ledger : Ledger system.registered system.world.registry system.world.fresh (process.holds + others))
    (alert : process.phase.Alert id system.world) (headed : rest.Headed)
    (watched : (process.phase.marks + rest).Watched system.world)
    (apart : ∀ mark ∈ rest, mark.1.head? ≠ some (.operation id)) :
    Phase.Minds id rest system.world phase later := by
  cases changes with
  | look present =>
    rename_i call operation
    obtain ⟨named, awake⟩ := alert
    subst named
    refine ⟨?_, ⟨rfl, rfl, fun mark member => ?_⟩, Machine.minds_erase apart⟩
    · exact watched.fewer (Nat.le_refl _) (fun _ _ member => member) rfl rfl
    · change mark ∈ (operation.task.marks [.operation operation.id]).beyond [.operation operation.id] + 0 at member
      rw [add_zero] at member
      have inner : mark ∈ operation.task.marks [.operation operation.id] :=
        Multiset.mem_of_le (Marks.beyond_le _ _) member
      refine Machine.minds_erase (fun other found head => ?_) mark member
        (awake mark (Multiset.mem_add.mpr (.inl inner)))
      have own := Multiset.mem_of_le (Marks.beyond_le _ _) found
      exact (Multiset.mem_filter.mp found).2 (Marks.chain_of_head (Marks.headed_task _ _) own head)
  | step present step =>
    rename_i call operation machine next
    obtain ⟨named, placed, awake⟩ := alert
    rw [Phase.marks, add_assoc] at watched
    have minded : machine.Minded (operation.alarm + rest) system.world :=
      ⟨(Marks.headed_alarm operation).add headed, watched, awake⟩
    have tends := Machine.step_tends (account_of_orderly orderly ledger) minded step
    refine ⟨?_, ⟨named, (Machine.step_operation step).trans placed, tends.awake⟩,
      tends.minds.mono (Multiset.le_add_left _ _)⟩
    rw [Phase.marks, add_assoc]
    exact tends.watched
  | conclude present idle =>
    rename_i call operation machine
    obtain ⟨named, placed, awake⟩ := alert
    rw [Phase.marks, add_assoc] at watched
    cases Machine.step_idles idle with
    | rest =>
      cases placed
      exact Process.watch_minds named ⟨orderly.sound, orderly.lawful, fun _ same => by cases same⟩ ledger
        headed watched fun mark member => awake mark (Multiset.mem_add.mpr (.inl member))
    | @finish number result =>
      refine Process.close_minds result ?_
      cases result with
      | ok value => exact Marks.Watched.idle_iff.mp watched
      | error error =>
        have none : Machine.marks ⟨number, .finish (.error error), []⟩ = 0 := rfl
        rwa [none, zero_add] at watched
  | drop present =>
    rename_i call operation
    obtain ⟨named, awake⟩ := alert
    rw [Phase.marks, add_assoc] at watched
    obtain ⟨left, minds⟩ := Operation.cancel_minds orderly.sound orderly.lawful.anchored ledger headed watched
    refine ⟨?_, trivial, minds⟩
    rw [Phase.marks, zero_add]
    exact left

/-- The marks of all operations. -/
def marks (system : System) : Marks :=
  (system.processes.map fun process => process.phase.marks).sum

/-- The marks of all operations but one. -/
def marksBeside (system : System) (id : Nat) : Marks :=
  ((system.processes.eraseIdx id).map fun process => process.phase.marks).sum

/-- The world agrees with the marks of all operations, and all that rest are called if they are stirred. -/
structure Alert (system : System) : Prop where
  watched : system.marks.Watched system.world
  each : ∀ (id : Nat) (process : Process), system.processes[id]? = some process →
    process.phase.Alert id system.world

theorem marks_split {id : Nat} {process : Process} (present : system.processes[id]? = some process) :
    system.marks = process.phase.marks + system.marksBeside id :=
  (sum_modify system.processes id present (fun process => process) fun process : Process => process.phase.marks).1

theorem marks_become {id : Nat} {process : Process} (present : system.processes[id]? = some process)
    (phase : Phase) (world : World) :
    (system.become id phase world).marks = phase.marks + system.marksBeside id :=
  (sum_modify system.processes id present (fun process => { process with phase })
    fun process : Process => process.phase.marks).2

theorem mem_marks_sum {processes : List Process} {mark : List Strand × Mark} :
    mark ∈ (processes.map fun process => process.phase.marks).sum ↔
      ∃ process ∈ processes, mark ∈ process.phase.marks := by
  induction processes with
  | nil => simp
  | cons process rest ih => simp [ih]

theorem mem_marksBeside {id : Nat} {mark : List Strand × Mark} : mark ∈ system.marksBeside id ↔
    ∃ other process, other ≠ id ∧ system.processes[other]? = some process ∧ mark ∈ process.phase.marks := by
  rw [marksBeside, mem_marks_sum]
  constructor
  · rintro ⟨process, inside, own⟩
    obtain ⟨other, different, present⟩ := List.mem_eraseIdx_iff_getElem?.mp inside
    exact ⟨other, process, different, present, own⟩
  · rintro ⟨other, process, different, present, own⟩
    exact ⟨process, List.mem_eraseIdx_iff_getElem?.mpr ⟨other, different, present⟩, own⟩

theorem marks_headed (system : System) : system.marks.Headed :=
  Marks.headed_sum _ _ fun process _ => Marks.headed_phase process.phase

theorem marksBeside_headed (system : System) (id : Nat) : (system.marksBeside id).Headed :=
  Marks.headed_sum _ _ fun process _ => Marks.headed_phase process.phase

theorem Alert.apart (alert : system.Alert) (id : Nat) :
    ∀ mark ∈ system.marksBeside id, mark.1.head? ≠ some (.operation id) := by
  intro mark member
  obtain ⟨other, process, different, present, own⟩ := mem_marksBeside.mp member
  exact Phase.head_of_other (alert.each other process present) (Ne.symm different) own

theorem advanceTo_minds {marks : Marks} {world : World} {time : Nat} (watched : marks.Watched world)
    (headed : marks.Headed) (forward : world.now ≤ time) :
    marks.Watched (world.advanceTo time) ∧ world.Minds marks (world.advanceTo time) := by
  rw [World.advanceTo_eq]
  refine ⟨⟨watched.distinct, watched.issued, watched.waiters, fun timer member => ?_,
    fun chain id due member => ?_⟩, .of_woken _ rfl (fun id due chain _ set => ?_)
      (fun _ _ _ _ set => .inl set) (fun chain listed => ?_) fun _ => headed.ne_nil⟩
  · obtain ⟨set, ahead⟩ := List.mem_filter.mp member
    exact ⟨(watched.timers timer set).1, by simpa using ahead⟩
  · by_cases past : due ≤ time
    · exact .inr past
    · rcases watched.clocks chain id due member with set | late
      · exact .inl (List.mem_filter.mpr ⟨set, by simpa using Nat.lt_of_not_le past⟩)
      · exact absurd (late.trans forward) past
  · by_cases past : due ≤ time
    · exact .inr (List.mem_map_of_mem (f := Timer.strands) (World.mem_fired.mpr ⟨set, past⟩))
    · exact .inl (List.mem_filter.mpr ⟨set, by simpa using Nat.lt_of_not_le past⟩)
  · obtain ⟨timer, fired, rfl⟩ := List.mem_map.mp listed
    have set := (World.mem_fired.mp fired).1
    exact watched.suit headed (headed _ (watched.timers timer set).1)

theorem mem_marks {id : Nat} {process : Process} (present : system.processes[id]? = some process)
    {mark : List Strand × Mark} (member : mark ∈ process.phase.marks) : mark ∈ system.marks := by
  rw [marks_split present]
  exact Multiset.mem_add.mpr (.inl member)

theorem Alert.of_minds {later : World} (alert : system.Alert) (watched : system.marks.Watched later)
    (minds : system.world.Minds system.marks later) : Alert { system with world := later } :=
  ⟨watched, fun id process present => (alert.each id process present).of_minds minds fun _ => mem_marks present⟩

/-- A new operation rests nowhere yet. -/
theorem Alert.start (alert : before.Alert) (call : Call) :
    Alert { before with processes := before.processes ++
      [⟨call, .looking (call.operation before.processes.length before.world)
        (.start before.processes.length (call.operation before.processes.length before.world).task)⟩] } := by
  obtain ⟨named, silent, idle⟩ := Call.operation_marks call before.processes.length before.world
  have new : Phase.marks (.looking (call.operation before.processes.length before.world)
      (.start before.processes.length (call.operation before.processes.length before.world).task)) =
        {([.operation before.processes.length], .idle)} := by
    rw [Phase.marks, silent, add_zero]
    exact idle _
  refine ⟨?_, fun id process present => ?_⟩
  · rw [marks, List.map_append, List.sum_append, List.map_singleton, List.sum_singleton, new, add_comm,
      Multiset.singleton_add]
    exact Marks.Watched.idle_iff.mpr alert.watched
  · rcases Nat.lt_or_ge id before.processes.length with old | fresh
    · rw [List.getElem?_append_left old] at present
      exact alert.each id process present
    · rw [List.getElem?_append_right fresh, List.getElem?_singleton] at present
      split at present
      next first =>
        have same : id = before.processes.length := by omega
        cases present
        refine ⟨named.trans same.symm, same.symm, fun mark member => ?_⟩
        rw [Machine.asleep] at member
        change mark ∈ Marks.beyond (Task.marks _ _) _ + 0 at member
        rw [idle, add_zero, Marks.beyond_self] at member
        simp at member
      next => cases present

/-- What one operation does leaves the others called. -/
theorem Alert.become (alert : before.Alert) {id : Nat} {process : Process}
    (present : before.processes[id]? = some process) {phase : Phase} {later : World}
    (moved : Phase.Minds id (before.marksBeside id) before.world phase later) :
    Alert (before.become id phase later) := by
  refine ⟨?_, fun other changed found => ?_⟩
  · rw [marks_become present]
    exact moved.watched
  · rcases process_become present found with ⟨rfl, rfl⟩ | ⟨different, its⟩
    · exact moved.alert
    · exact (alert.each other changed its).of_minds moved.minds fun mark member =>
        mem_marksBeside.mpr ⟨other, changed, different, its, member⟩

/-- Every action leaves all that rest called if they are stirred. -/
theorem Acts.alert (acts : Acts before action after) (orderly : before.Orderly) (alert : before.Alert) :
    after.Alert := by
  cases acts with
  | registered accepted same calm begun ready timers now =>
    have still : before.world.Still _ :=
      ⟨ready, timers, now, calm.ge, fun other => by
        rw [World.queue, same]
        exact Registry.queue_register accepted other⟩
    have moved := Alert.of_minds alert (alert.watched.still still) (.of_still still)
    exact ⟨moved.watched, moved.each⟩
  | rejected =>
    rename_i key origin
    have still : before.world.Still (before.world.emit (.rejected key)) := .emit _ _
    exact Alert.of_minds alert (alert.watched.still still) (.of_still still)
  | start => exact alert.start _
  | becomes changes =>
    rename_i id process phase later
    have present := changes.present
    obtain ⟨own, ledger⟩ := orderly.process present
    have watched := alert.watched
    rw [marks_split present] at watched
    exact alert.become present (changes.minds own ledger (alert.each id process present)
      (before.marksBeside_headed id) watched (alert.apart id))
  | advance forward =>
    obtain ⟨watched, minds⟩ := advanceTo_minds alert.watched before.marks_headed forward
    exact Alert.of_minds alert watched minds

theorem initial_alert : initial.Alert where
  watched := {
    distinct := Multiset.nodup_zero
    issued := fun number member => absurd member (Multiset.notMem_zero number)
    waiters := fun key waiter member => absurd member List.not_mem_nil
    timers := fun timer member => absurd member List.not_mem_nil
    clocks := fun chain id due member => absurd member (Multiset.notMem_zero _) }
  each id process present := by cases present

theorem Reachable.alert (reachable : system.Reachable) : system.Alert := by
  have both := @Reachable.invariant (fun system => system.Orderly ∧ system.Alert)
    ⟨initial_orderly, initial_alert⟩ fun _ _ _ known result =>
      ⟨((act?_acts result).orderly known.1).1, (act?_acts result).alert known.1 known.2⟩
  exact (both reachable).2

end System

end Blueprint
