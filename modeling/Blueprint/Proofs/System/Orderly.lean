import Blueprint.Proofs.Machine.Advance
import Blueprint.Proofs.System
/-! Operations that share a registry keep order among them. In every state that can be reached the ledger
agrees with the claims of all operations together, and each operation is sound and lawful for itself. -/

namespace Blueprint

namespace Phase

/-- What is still to be done. -/
def task : Phase → Task
  | resting operation => operation.task
  | looking _ machine => machine.whole
  | returned _ | dropped => .forever

/-- The error with which an operation is ending or has ended. -/
def error? : Phase → Option ResolveError
  | looking _ ⟨_, .finish (.error error), _⟩ | returned (.error error) => some error
  | _ => none

end Phase

namespace Process

/-- The claims of an operation. -/
def holds (process : Process) : Multiset Hold :=
  Stakes.holds (process.phase.task.stakes none)

/-- An operation in order, whatever the others do. -/
structure Orderly (contents : Contents) (process : Process) : Prop where
  sound : process.phase.task.Sound contents.Meaning
  lawful : Stakes.Lawful contents process.call.references (process.phase.task.stakes none)
  justified : ∀ error, process.phase.error? = some error → error.Justified contents process.call.references

end Process

namespace System

/-- The claims of all operations. -/
def holds (system : System) : Multiset Hold :=
  (system.processes.map Process.holds).sum

/-- The ledger agrees with all operations, and each of them is in order. -/
structure Orderly (system : System) : Prop where
  ledger : Ledger system.registered system.world.registry system.world.fresh system.holds
  each : ∀ process ∈ system.processes, process.Orderly system.registered

end System

/-- Fewer meanings make a task no less sound. -/
theorem Task.Sound.mono {meanings fewer : Lookup → Prop} (among : ∀ lookup, fewer lookup → meanings lookup)
    {task : Task} (sound : task.Sound meanings) : task.Sound fewer := by
  induction task using Task.induction with
  | node | shell | variant | field | forever | waiting => simp
  | delay due timer next ih => exact sound
  | inside frame task ih =>
    rw [Task.sound_inside] at sound ⊢
    exact ⟨fun fetch same lookup meant => sound.1 fetch same lookup (among lookup meant), ih sound.2⟩
  | join parts ih =>
    rw [Task.sound_join, soundParts_iff] at sound ⊢
    exact fun task member => ih task member (sound task member)
  | fan fan queued running =>
    rw [Task.sound_fan, soundElements_iff, soundElements_iff] at sound ⊢
    exact ⟨sound.1, fun element member => queued element member (sound.2.1 element member),
      fun element member => running element member (sound.2.2 element member)⟩

theorem Process.Orderly.mono {contents more : Contents} (wider : contents.Extends more) {process : Process}
    (orderly : process.Orderly contents) : process.Orderly more where
  sound := orderly.sound.mono fun _ ⟨most, further, same⟩ => ⟨most, wider.trans further, same⟩
  lawful := orderly.lawful.mono wider
  justified error same := (orderly.justified error same).mono wider

/-- An item of a list and the others, before and after the item is changed. -/
theorem sum_modify {α M : Type} [AddCommMonoid M] (items : List α) (index : Nat) {item : α}
    (found : items[index]? = some item) (change : α → α) (weigh : α → M) :
    (items.map weigh).sum = weigh item + ((items.eraseIdx index).map weigh).sum ∧
      ((items.modify index change).map weigh).sum =
        weigh (change item) + ((items.eraseIdx index).map weigh).sum := by
  induction items generalizing index with
  | nil => simp at found
  | cons first rest ih =>
    cases index with
    | zero =>
      rw [List.getElem?_cons_zero, Option.some.injEq] at found
      subst found
      exact ⟨by simp, by simp⟩
    | succ index =>
      obtain ⟨before, after⟩ := ih index (by simpa using found)
      simp only [List.eraseIdx_cons_succ, List.modify_succ_cons, List.map_cons, List.sum_cons, before, after]
      exact ⟨add_left_comm _ _ _, add_left_comm _ _ _⟩

theorem mem_modify {α : Type} {items : List α} {index : Nat} {item other : α}
    (found : items[index]? = some item) {change : α → α} (member : other ∈ items.modify index change) :
    other ∈ items ∨ other = change item := by
  obtain ⟨position, inside, rfl⟩ := List.mem_iff_getElem.mp member
  rw [List.getElem_modify]
  split
  next same =>
    subst same
    obtain ⟨present, rfl⟩ := List.getElem?_eq_some_iff.mp found
    exact .inr rfl
  next => exact .inl (List.getElem_mem _)

namespace Call

variable {contents : Contents}

theorem operation_stakes (call : Call) (id : Nat) (world : World) (owner : Option Key) :
    (call.operation id world).task.stakes owner = pendings owner call.references call.scope.anchor := by
  cases call with
  | resolve config node => simp [operation, Operation.resolve, references, scope]
  | within scope work =>
    cases work <;> simp [operation, Operation.ofTask, Session.Work.task, references, Call.scope]

theorem operation_sound (call : Call) (id : Nat) (world : World) (meanings : Lookup → Prop) :
    (call.operation id world).task.Sound meanings := by
  cases call with
  | resolve config node => simp [operation, Operation.resolve]
  | within scope work => cases work <;> simp [operation, Operation.ofTask, Session.Work.task]

theorem operation_value (call : Call) (id : Nat) (world : World) (lookup : Lookup) :
    (call.operation id world).task.value? lookup = call.evaluate lookup := by
  cases call with
  | resolve config node => simp [operation, Operation.resolve, evaluate]
  | within scope work => cases work <;> simp [operation, Operation.ofTask, Session.Work.task, evaluate]

theorem operation_lawful (call : Call) (id : Nat) (world : World) (outermost : call.scope.owner = none) :
    Stakes.Lawful contents call.references ((call.operation id world).task.stakes none) := by
  intro stake member
  rw [operation_stakes] at member
  obtain ⟨key, listed, rfl⟩ := mem_pendings.mp member
  exact {
    anchored := outermost
    outer := fun _ => listed
    inner := fun _ same => by cases same
    waits := fun _ _ same => by cases same
    turns := fun _ same => by cases same }

end Call

namespace Phase

/-- The value that an operation has come to or will come to, under a meaning of keys. An operation that was
given up or has run out of time need not come to any. -/
def Meets (lookup : Lookup) (value : Option Value) : Phase → Prop
  | returned (.ok result) => value = some result
  | returned (.error (.deadlineExceeded _)) | dropped => True
  | returned (.error _) => value = none
  | phase => phase.task.value? lookup = value

end Phase

/-- One operation goes on while the claims of the others stay what they are. -/
structure Process.Moves (contents : Contents) (others : Multiset Hold) (process : Process) (world : World)
    (phase : Phase) (later : World) : Prop where
  orderly : Process.Orderly contents ⟨process.call, phase⟩
  ledger : Ledger contents later.registry later.fresh (Process.holds ⟨process.call, phase⟩ + others)
  goes : world.Goes later
  meets : ∀ value, process.phase.Meets (contents.valueOf []) value → phase.Meets (contents.valueOf []) value

namespace Operation

variable {contents : Contents} {others : Multiset Hold} {call : Call} {operation : Operation}
  {world : World}

theorem announce_calm (whole : Bool) (result : Except ResolveError Value) (world : World) :
    world.Calm (announce whole result world) := by
  unfold announce
  split
  · split
    · exact .emit world (by simp)
    · exact .emit world (by simp)
  · exact .refl world

theorem close_spec (operation : Operation) (result : Except ResolveError Value) (world : World) :
    ∃ later, operation.close result world = (.over result, later) ∧ world.Calm later := by
  unfold close
  split
  · exact ⟨_, rfl, (World.Calm.dropTimer world _).trans (announce_calm _ _ _)⟩
  · exact ⟨_, rfl, announce_calm _ _ _⟩

/-- What has ended claims nothing. -/
theorem close_moves {machine : Machine} {result : Except ResolveError Value}
    (place : machine.control = .finish result) (bare : machine.layers = [])
    (orderly : Process.Orderly contents ⟨call, .looking operation machine⟩)
    (ledger : Ledger contents world.registry world.fresh
      (Process.holds ⟨call, .looking operation machine⟩ + others)) {later : World}
    (calm : world.Calm later) :
    Process.Moves contents others ⟨call, .looking operation machine⟩ world (.returned result) later := by
  obtain ⟨number, control, layers⟩ := machine
  subst place bare
  have idle : Process.holds ⟨call, .looking operation ⟨number, .finish result, []⟩⟩ = 0 := by
    cases result <;> simp [Process.holds, Phase.task, Machine.whole, surround, Control.task, Node.references]
  rw [idle] at ledger
  refine ⟨⟨by simp [Phase.task], by simp [Phase.task], fun error same => ?_⟩, ?_, .of_calm calm,
    fun value meets => ?_⟩
  · cases result with
    | ok value => cases same
    | error own => exact orderly.justified error same
  · rw [calm.registry]
    simpa [Process.holds, Phase.task] using ledger.mono calm.fresh
  · cases result with
    | ok own =>
      simpa [Phase.Meets, Phase.task, Machine.whole, surround, Control.task, Node.evaluate, eq_comm] using meets
    | error own =>
      have absent : value = none := by
        simpa [Phase.Meets, Phase.task, Machine.whole, surround, Control.task, eq_comm] using meets
      unfold Phase.Meets
      split <;> simp_all

/-- A look that ends leaves the operation resting, or over with a result. -/
theorem conclude_moves {machine : Machine} (idle : machine.step world = none)
    (orderly : Process.Orderly contents ⟨call, .looking operation machine⟩)
    (ledger : Ledger contents world.registry world.fresh
      (Process.holds ⟨call, .looking operation machine⟩ + others)) :
    Process.Moves contents others ⟨call, .looking operation machine⟩ world
      (.of (operation.conclude machine world).1) (operation.conclude machine world).2 := by
  cases Machine.step_idles idle with
  | @rest number task =>
    -- the operation rests with its task, unless its time is over
    have rests : ∀ (deadline : Option Deadline) (later : World), world.Calm later →
        Process.Moves contents others ⟨call, .looking operation ⟨number, .rest task, []⟩⟩ world
          (.resting { operation with task, deadline }) later := fun deadline later calm =>
      ⟨⟨orderly.sound, orderly.lawful, fun _ same => by cases same⟩,
        calm.registry ▸ ledger.mono calm.fresh, .of_calm calm, fun _ meets => meets⟩
    simp only [conclude, watch]
    split
    · exact rests _ world (.refl world)
    next deadline set =>
      split
      next late =>
        obtain ⟨later, same, calm⟩ := close_spec { operation with task }
          (.error (.deadlineExceeded deadline.length)) (world.cancel task)
        have struck := cancel_struck task none world others orderly.sound orderly.lawful.anchored ledger
        rw [same]
        refine ⟨⟨by simp [Phase.task, Phase.of], by simp [Phase.task, Phase.of], fun error same => ?_⟩, ?_,
          struck.goes.trans (.of_calm calm), fun _ _ => trivial⟩
        · cases same
          trivial
        · simpa [Process.holds, Phase.task, Phase.of] using (struck.calm calm).ledger
      next =>
        split
        · exact rests _ world (.refl world)
        · exact rests _ _ (.setTimer world _ _)
  | @finish number result =>
    obtain ⟨later, same, calm⟩ := close_spec operation result world
    simp only [conclude, same]
    exact close_moves rfl rfl orderly ledger calm

end Operation

namespace System

variable {before after system : System} {action : Action}

theorem mem_holds {hold : Hold} : hold ∈ system.holds ↔ ∃ process ∈ system.processes,
    ∃ stake ∈ process.phase.task.stakes none, stake.2.hold? stake.1 = some hold := by
  have inside : ∀ processes : List Process, hold ∈ (processes.map Process.holds).sum ↔
      ∃ process ∈ processes, hold ∈ process.holds := by
    intro processes
    induction processes with
    | nil => simp
    | cons process rest ih => simp [ih]
  rw [holds, inside]
  simp only [Process.holds, Stakes.holds, Multiset.mem_filterMap]

theorem initial_orderly : initial.Orderly := by
  refine ⟨⟨rfl, by simp [initial], fun key entry found => ?_, fun hold member => ?_, fun hold member => ?_,
    ⟨WaitGraph.empty_tidy, WaitGraph.empty_acyclic, rfl⟩, ?_, fun ticket member => ?_⟩, ?_⟩
  · cases found
  all_goals simp_all [initial, holds, Hold.tickets]

theorem process_of_phase {id : Nat} {phase : Phase} (found : system.phase? id = some phase) :
    ∃ call, system.processes[id]? = some ⟨call, phase⟩ := by
  obtain ⟨process, present, same⟩ := Option.map_eq_some_iff.mp found
  exact ⟨process.call, by rw [present, ← same]⟩

/-- How the phase of one operation changes in one action, and what the action is. -/
inductive Changes (system : System) : Action → Nat → Process → Phase → World → Prop where
  | look {id : Nat} {call : Call} {operation : Operation}
      (present : system.processes[id]? = some ⟨call, .resting operation⟩) :
      Changes system (.look id) id ⟨call, .resting operation⟩
        (.looking operation (.start id operation.task)) (attended system.world id)
  | step {id : Nat} {call : Call} {operation : Operation} {machine next : Machine} {later : World}
      (present : system.processes[id]? = some ⟨call, .looking operation machine⟩)
      (step : machine.step system.world = some (next, later)) :
      Changes system (.step id) id ⟨call, .looking operation machine⟩ (.looking operation next) later
  | conclude {id : Nat} {call : Call} {operation : Operation} {machine : Machine}
      (present : system.processes[id]? = some ⟨call, .looking operation machine⟩)
      (idle : machine.step system.world = none) :
      Changes system (.step id) id ⟨call, .looking operation machine⟩
        (.of (operation.conclude machine system.world).1) (operation.conclude machine system.world).2
  | drop {id : Nat} {call : Call} {operation : Operation}
      (present : system.processes[id]? = some ⟨call, .resting operation⟩) :
      Changes system (.drop id) id ⟨call, .resting operation⟩ .dropped (operation.cancel system.world)

/-- All that an action can do. -/
inductive Acts (system : System) : Action → System → Prop where
  | registered {key : Key} {origin : Origin} {registry : Registry}
      (accepted : system.world.registry.register key (origin.entry key) = .ok registry) {later : World}
      (same : later.registry = registry) (calm : later.fresh = system.world.fresh)
      (begun : later.begun = system.world.begun) (ready : later.ready = system.world.ready)
      (timers : later.timers = system.world.timers) (now : later.now = system.world.now) :
      Acts system (.register key origin)
        { system with world := later, registered := system.registered ++ [(key, origin)] }
  | rejected {key : Key} {origin : Origin} :
      Acts system (.register key origin) { system with world := system.world.emit (.rejected key) }
  | start {call : Call} (outermost : call.scope.owner = none) :
      Acts system (.start call) { system with processes := system.processes ++
        [⟨call, .looking (call.operation system.processes.length system.world)
          (.start system.processes.length (call.operation system.processes.length system.world).task)⟩] }
  | becomes {action : Action} {id : Nat} {process : Process} {phase : Phase} {later : World}
      (changes : Changes system action id process phase later) : Acts system action (system.become id phase later)
  | advance {time : Nat} (forward : system.world.now ≤ time) :
      Acts system (.advance time) { system with world := system.world.advanceTo time }

theorem Changes.present {id : Nat} {process : Process} {phase : Phase} {later : World}
    (changes : Changes system action id process phase later) : system.processes[id]? = some process := by
  cases changes <;> assumption

theorem act?_acts (result : before.act? action = some after) : Acts before action after := by
  unfold act? at result
  split at result
  next key origin =>
    unfold World.register at result
    split at result
    next registered =>
      split at registered
      next registry accepted =>
        cases registered
        cases result
        exact .registered accepted rfl rfl (World.Calm.emit _ (by simp)).begun rfl rfl rfl
      next => cases registered
    next registered =>
      split at registered
      next => cases registered
      next =>
        cases registered
        cases result
        exact .rejected
  next call =>
    split at result
    next outermost =>
      cases result
      exact .start outermost
    next => cases result
  next id =>
    split at result
    next operation found =>
      obtain ⟨call, present⟩ := process_of_phase found
      cases result
      exact .becomes (.look present)
    next => cases result
  next id =>
    split at result
    next operation machine found =>
      obtain ⟨call, present⟩ := process_of_phase found
      split at result
      next step =>
        cases result
        exact .becomes (.step present step)
      next idle =>
        cases result
        exact .becomes (.conclude present idle)
    next => cases result
  next id =>
    split at result
    next operation found =>
      obtain ⟨call, present⟩ := process_of_phase found
      cases result
      exact .becomes (.drop present)
    next => cases result
  next time =>
    split at result
    next forward =>
      cases result
      exact .advance forward
    next => cases result

/-- An operation that is there after one has gone over into another phase: it is that one, or it is as it was. -/
theorem process_become {id other : Nat} {process changed : Process} {phase : Phase} {later : World}
    (present : before.processes[id]? = some process)
    (found : (before.become id phase later).processes[other]? = some changed) :
    other = id ∧ changed = { process with phase } ∨ other ≠ id ∧ before.processes[other]? = some changed := by
  simp only [become, List.getElem?_modify] at found
  split at found
  next same =>
    subst same
    rw [present] at found
    cases found
    exact .inl ⟨rfl, rfl⟩
  next different => exact .inr ⟨Ne.symm different, by simpa using found⟩

/-- Where an operation comes from that is there after an action: it was there as it is, it has just begun, or
it is the one that went on. -/
theorem Acts.process_cases (acts : Acts before action after) {id : Nat} {call : Call} {phase : Phase}
    (present : after.processes[id]? = some ⟨call, phase⟩) :
    before.processes[id]? = some ⟨call, phase⟩ ∨
      (action = .start call ∧ phase = .looking (call.operation id before.world)
        (.start id (call.operation id before.world).task)) ∨
      ∃ process later, process.call = call ∧ Changes before action id process phase later := by
  cases acts with
  | registered | rejected | advance => exact .inl present
  | start outermost =>
    rcases Nat.lt_or_ge id before.processes.length with old | fresh
    · rw [List.getElem?_append_left old] at present
      exact .inl present
    · rw [List.getElem?_append_right fresh, List.getElem?_singleton] at present
      split at present
      next first =>
        obtain rfl : id = before.processes.length := by omega
        cases present
        exact .inr (.inl ⟨rfl, rfl⟩)
      next => cases present
  | becomes changes =>
    rename_i other process next later
    rcases process_become changes.present present with ⟨rfl, same⟩ | ⟨_, old⟩
    · cases same
      exact .inr (.inr ⟨process, later, rfl, changes⟩)
    · exact .inl old

/-- What an action leaves of an operation: all of it, or what it makes of it when it is the one that goes on. -/
theorem Acts.goes_on (acts : Acts before action after) {id : Nat} {call : Call} {phase : Phase}
    (present : before.processes[id]? = some ⟨call, phase⟩) :
    ∃ next, after.processes[id]? = some ⟨call, next⟩ ∧
      (next = phase ∨ ∃ later, Changes before action id ⟨call, phase⟩ next later) := by
  cases acts with
  | registered | rejected | advance => exact ⟨phase, present, .inl rfl⟩
  | start =>
    have old := (List.getElem?_eq_some_iff.mp present).1
    exact ⟨phase, by rw [List.getElem?_append_left old]; exact present, .inl rfl⟩
  | becomes changes =>
    rename_i other process next later
    have known := changes.present
    simp only [become, List.getElem?_modify]
    split
    next same =>
      subst same
      cases known.symm.trans present
      exact ⟨next, by rw [present]; rfl, .inr ⟨later, changes⟩⟩
    next => exact ⟨phase, by simpa using present, .inl rfl⟩

theorem Acts.registered_eq (acts : Acts before action after) (quiet : Quiet action) :
    after.registered = before.registered := by
  cases acts with
  | registered | rejected => exact quiet.elim
  | start | becomes | advance => rfl

theorem act?_registered (quiet : Quiet action) (result : before.act? action = some after) :
    after.registered = before.registered :=
  (act?_acts result).registered_eq quiet

theorem Acts.extends (acts : Acts before action after) : before.registered.Extends after.registered := by
  cases acts with
  | registered => exact Contents.extends_append _ _
  | rejected | start | becomes | advance => exact .refl _

theorem Run.registered {allowed : Action → Prop} (quiet : ∀ action, allowed action → Quiet action)
    (run : Run allowed before after) : after.registered = before.registered := by
  induction run with
  | refl => rfl
  | tail _ step ih =>
    obtain ⟨action, permitted, result⟩ := step
    exact (act?_registered (quiet action permitted) result).trans ih

theorem error?_looking {machine : Machine} {error : ResolveError} (operation : Operation)
    (same : machine.control = .finish (.error error)) :
    (Phase.looking operation machine).error? = some error := by
  obtain ⟨number, control, layers⟩ := machine
  subst same
  rfl

theorem control_of_error? {machine : Machine} {error : ResolveError} {operation : Operation}
    (ending : (Phase.looking operation machine).error? = some error) :
    machine.control = .finish (.error error) := by
  obtain ⟨number, control, layers⟩ := machine
  match control, ending with
  | .finish (.error _), same => rw [Option.some.inj same]

theorem cancel_struck {contents : Contents} {others : Multiset Hold} {call : Call} {operation : Operation}
    {world : World} (orderly : Process.Orderly contents ⟨call, .resting operation⟩)
    (ledger : Ledger contents world.registry world.fresh
      (Process.holds ⟨call, .resting operation⟩ + others)) :
    World.Struck contents others world (operation.cancel world) := by
  have struck := Blueprint.cancel_struck operation.task none world others orderly.sound
    orderly.lawful.anchored ledger
  unfold Operation.cancel
  split
  · exact struck.calm (.dropTimer _ _)
  · exact struck

/-- The account of a machine in a state that is in order. -/
theorem account_of_orderly {contents : Contents} {call : Call} {operation : Operation}
    {machine : Machine} {others : Multiset Hold} {world : World}
    (orderly : Process.Orderly contents ⟨call, .looking operation machine⟩)
    (ledger : Ledger contents world.registry world.fresh
      (Process.holds ⟨call, .looking operation machine⟩ + others)) :
    machine.Account contents call.references others world :=
  ⟨⟨orderly.sound, orderly.lawful, ledger⟩, fun error same =>
    orderly.justified error (error?_looking operation same)⟩

/-- The claims of all operations but one. -/
def holdsBeside (system : System) (id : Nat) : Multiset Hold :=
  ((system.processes.eraseIdx id).map Process.holds).sum

theorem holds_become {id : Nat} {process : Process} (present : system.processes[id]? = some process)
    (phase : Phase) (world : World) :
    (system.become id phase world).holds = Process.holds { process with phase } + system.holdsBeside id :=
  (sum_modify system.processes id present (fun process => { process with phase }) Process.holds).2

theorem phase?_of_present {id : Nat} {process : Process} (present : system.processes[id]? = some process) :
    system.phase? id = some process.phase := by
  rw [phase?, present]
  rfl

theorem holds_of_present {id : Nat} {process : Process} (present : system.processes[id]? = some process) :
    system.holds = process.holds + system.holdsBeside id :=
  (sum_modify system.processes id present (fun process => process) Process.holds).1

/-- An operation that has just begun claims nothing. -/
theorem holds_start (system : System) (call : Call) : System.holds { system with processes := system.processes ++
    [⟨call, .looking (call.operation system.processes.length system.world)
      (.start system.processes.length (call.operation system.processes.length system.world).task)⟩] } =
        system.holds := by
  have idle : Process.holds ⟨call, .looking (call.operation system.processes.length system.world)
      (.start system.processes.length (call.operation system.processes.length system.world).task)⟩ = 0 := by
    simp [Process.holds, Phase.task, Machine.start, Machine.whole, surround, Control.task, Call.operation_stakes]
  simp [holds, idle]

/-- What order says about one operation beside the others. -/
theorem Orderly.process (orderly : system.Orderly) {id : Nat} {process : Process}
    (present : system.processes[id]? = some process) : process.Orderly system.registered ∧
      Ledger system.registered system.world.registry system.world.fresh
        (process.holds + system.holdsBeside id) := by
  exact ⟨orderly.each process (List.mem_of_getElem? present), holds_of_present present ▸ orderly.ledger⟩

theorem Orderly.account (orderly : system.Orderly) {id : Nat} {call : Call} {operation : Operation}
    {machine : Machine} (present : system.processes[id]? = some ⟨call, .looking operation machine⟩) :
    ∃ others, machine.Account system.registered call.references others system.world :=
  have ⟨own, ledger⟩ := orderly.process present
  ⟨_, account_of_orderly own ledger⟩

theorem Changes.moves {id : Nat} {process : Process} {phase : Phase} {later : World}
    {others : Multiset Hold} (changes : Changes system action id process phase later)
    (orderly : process.Orderly system.registered)
    (ledger : Ledger system.registered system.world.registry system.world.fresh (process.holds + others)) :
    process.Moves system.registered others system.world phase later := by
  cases changes with
  | look present =>
    exact ⟨⟨orderly.sound, orderly.lawful, fun _ same => by cases same⟩, ledger,
      .of_calm ⟨rfl, Nat.le_refl _, rfl⟩, fun _ meets => meets⟩
  | step present step =>
    rename_i call operation machine next
    have advances := Machine.step_advances (account_of_orderly orderly ledger) step
    refine ⟨⟨advances.account.sound, advances.account.lawful, fun error same =>
      advances.justified error (control_of_error? same)⟩, advances.account.ledger, advances.goes,
      fun value meets => ?_⟩
    exact (advances.tracks.same _ rfl).trans meets
  | conclude present idle => exact Operation.conclude_moves idle orderly ledger
  | drop present =>
    have struck := cancel_struck orderly ledger
    exact ⟨⟨by simp [Phase.task], by simp [Phase.task], fun _ same => by cases same⟩,
      by simpa [Process.holds, Phase.task] using struck.ledger, struck.goes, fun _ _ => trivial⟩

/-- Order is kept by every action, what is stored stays, and nothing complete is initialized. -/
theorem Acts.orderly (acts : Acts before action after) (orderly : before.Orderly) :
    after.Orderly ∧ before.world.Goes after.world := by
  cases acts with
  | registered accepted same calm begun =>
    rename_i key origin registry later
    have ledger := orderly.ledger.register accepted
    refine ⟨⟨by rw [same, calm]; exact ledger, fun process member =>
      (orderly.each process member).mono (Contents.extends_append _ _)⟩, .of_begun (fun other value found => ?_) begun⟩
    obtain ⟨_, rfl⟩ := Ledger.register_ok accepted
    rw [same]
    unfold Registry.get? Registry.entry? at found ⊢
    rw [OrderedMap.get?_append]
    cases present : OrderedMap.get? before.world.registry.entries other with
    | none => simp [present] at found
    | some entry => simpa [present] using found
  | rejected =>
    rename_i key origin
    have calm : before.world.Calm (before.world.emit (.rejected key)) := .emit _ (by simp)
    exact ⟨⟨calm.registry ▸ orderly.ledger.mono calm.fresh, orderly.each⟩, .of_calm calm⟩
  | start outermost =>
    rename_i call
    refine ⟨⟨?_, fun process member => ?_⟩, .of_calm (.refl _)⟩
    · rw [holds_start]
      exact orderly.ledger
    · rcases List.mem_append.mp member with old | new
      · exact orderly.each process old
      · rw [List.mem_singleton] at new
        subst new
        exact ⟨call.operation_sound _ _ _, call.operation_lawful _ _ outermost, fun _ same => by cases same⟩
  | becomes changes =>
    rename_i id process phase later
    obtain ⟨own, ledger⟩ := orderly.process changes.present
    have moves := changes.moves own ledger
    refine ⟨⟨?_, fun other member => ?_⟩, moves.goes⟩
    · rw [holds_become changes.present]
      exact moves.ledger
    · rcases mem_modify changes.present member with old | rfl
      · exact orderly.each other old
      · exact moves.orderly
  | advance forward =>
    rename_i time
    have calm := World.Calm.advanceTo before.world time
    exact ⟨⟨calm.registry ▸ orderly.ledger.mono calm.fresh, orderly.each⟩, .of_calm calm⟩

theorem Reachable.orderly (reachable : system.Reachable) : system.Orderly :=
  reachable.invariant initial_orderly fun _ _ _ orderly result => ((act?_acts result).orderly orderly).1

end System

end Blueprint
