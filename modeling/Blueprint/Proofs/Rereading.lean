import Blueprint.Proofs.Alone.Returning
import Blueprint.Proofs.Footprint
import Blueprint.Proofs.Machine.Reading
import Blueprint.Proofs.Typed
/-! What was resolved once is read from then on. A value that was returned is what sequential evaluation gives to the
call, and all references of the call name complete entries; neither is ever undone. So the same node is resolved
again by reading only: each of its references is answered at once, and nothing else is done to the registry. -/

namespace Blueprint

/-- The value that an operation has come to or will come to, under a meaning of keys. -/
def Phase.value? (lookup : Lookup) : Phase → Option Value
  | returned (.ok value) => some value
  | phase => phase.task.value? lookup

/-- An operation comes to no other value than that of its call, whatever keys come to mean, and follows the
references of its call until they name complete entries. -/
structure Process.Grounded (contents : Contents) (registry : Registry) (process : Process) : Prop where
  value : ∀ lookup, contents.Meaning lookup → Below (process.phase.value? lookup) (process.call.evaluate lookup)
  served : process.phase.Thrives → ∀ key ∈ process.call.references,
    (process.phase.task.stakes none).Wants none key ∨ (registry.get? key.type key).isSome

theorem Contents.Meaning.narrow {contents more : Contents} {lookup : Lookup} (meaning : more.Meaning lookup)
    (wider : contents.Extends more) : contents.Meaning lookup := by
  obtain ⟨most, further, same⟩ := meaning
  exact ⟨most, wider.trans further, same⟩

/-- A complete entry stays complete. -/
theorem World.Goes.complete {world later : World} (goes : world.Goes later) {key : Key}
    (complete : (world.registry.get? key.type key).isSome) : (later.registry.get? key.type key).isSome := by
  obtain ⟨value, found⟩ := Option.isSome_iff_exists.mp complete
  exact Option.isSome_of_eq_some (goes.stored key value found)

namespace Process.Grounded

variable {contents more : Contents} {registry after : Registry} {process : Process}

theorem mono (grounded : process.Grounded contents registry) (wider : contents.Extends more)
    (stored : ∀ key : Key, (registry.get? key.type key).isSome → (after.get? key.type key).isSome) :
    process.Grounded more after where
  value lookup meaning := grounded.value lookup (meaning.narrow wider)
  served thrives key listed := (grounded.served thrives key listed).imp_right (stored key)

theorem of_start (contents : Contents) (call : Call) (id : Nat) (world : World) :
    Process.Grounded contents world.registry
      ⟨call, .looking (call.operation id world) (.start id (call.operation id world).task)⟩ where
  value lookup _ := .of_eq (call.operation_value id world lookup)
  served _ key listed := by
    left
    change ((call.operation id world).task.stakes none).Wants none key
    rw [call.operation_stakes]
    exact Stakes.wants_pendings.mpr ⟨rfl, listed⟩

/-- The references of a call that has come to a value name complete entries. -/
theorem complete {value : Value} {call : Call}
    (grounded : Process.Grounded contents registry ⟨call, .returned (.ok value)⟩) {key : Key}
    (listed : key ∈ call.references) : (registry.get? key.type key).isSome := by
  refine (grounded.served trivial key listed).resolve_left ?_
  rintro ⟨stake, member, _⟩
  exact absurd member (Multiset.notMem_zero stake)

end Process.Grounded

/-- A look that ends makes no value of an operation that was not there. -/
theorem Operation.conclude_value? {operation : Operation} {machine : Machine} {world : World}
    (idle : machine.step world = none) (lookup : Lookup) :
    Below ((Phase.of (operation.conclude machine world).1).value? lookup) (machine.whole.value? lookup) := by
  rcases conclude_cases idle with ⟨task, deadline, later, rests, bare, same⟩ | ⟨result, later, same, ended⟩
  · obtain ⟨number, control, layers⟩ := machine
    cases rests
    cases bare
    rw [same]
    exact .refl _
  · rw [same]
    cases result with
    | error error => exact none_below _
    | ok value =>
      obtain finished | ⟨length, late⟩ := ended
      · cases Machine.step_idles idle with
        | rest => cases finished
        | finish =>
          cases finished
          exact .refl _
      · cases late

namespace System

variable {before after system : System} {action : Action}

theorem Changes.grounded {id : Nat} {process : Process} {phase : Phase} {later : World} {others : Multiset Hold}
    (changes : Changes system action id process phase later) (orderly : process.Orderly system.registered)
    (ledger : Ledger system.registered system.world.registry system.world.fresh (process.holds + others))
    (grounded : process.Grounded system.registered system.world.registry) :
    Process.Grounded system.registered later.registry { process with phase } := by
  have goes := (changes.moves orderly ledger).goes
  have stored : ∀ key : Key, (system.world.registry.get? key.type key).isSome →
      (later.registry.get? key.type key).isSome := fun _ => goes.complete
  have kept := grounded.mono (.refl _) stored
  cases changes with
  | look present => exact ⟨kept.value, fun _ => kept.served trivial⟩
  | @step _ call operation machine next _ present step =>
    have account := account_of_orderly orderly ledger
    have tracks := (Machine.step_advances account step).tracks
    refine ⟨fun lookup meaning => (tracks.below lookup meaning).trans (grounded.value lookup meaning),
      fun thrives key listed => ?_⟩
    have alive : ∀ error, machine.control ≠ .finish (.error error) := fun error same =>
      thrives error (Machine.step_fails same step).1
    obtain ⟨keys, serves⟩ := Machine.step_serves account step
    rcases grounded.served alive key listed with wanted | complete
    · exact (serves.continues thrives).wants none key wanted
    · exact .inr (stored key complete)
  | conclude present idle =>
    refine ⟨fun lookup meaning => (Operation.conclude_value? idle lookup).trans (grounded.value lookup meaning),
      fun thrives key listed => ?_⟩
    obtain ⟨alive, stakes⟩ := (Operation.conclude_inert idle).2 thrives
    dsimp only
    rw [stakes]
    exact kept.served alive key listed
  | drop present => exact ⟨fun _ _ => none_below _, fun thrives => thrives.elim⟩

theorem Acts.grounded (acts : Acts before action after) (orderly : before.Orderly)
    (grounded : ∀ process ∈ before.processes, process.Grounded before.registered before.world.registry) :
    ∀ process ∈ after.processes, process.Grounded after.registered after.world.registry := by
  have goes := (acts.orderly orderly).2
  have stored : ∀ key : Key, (before.world.registry.get? key.type key).isSome →
      (after.world.registry.get? key.type key).isSome := fun _ => goes.complete
  cases acts with
  | registered =>
    exact fun process member => (grounded process member).mono (Contents.extends_append _ _) stored
  | rejected | advance => exact fun process member => (grounded process member).mono (.refl _) stored
  | start =>
    intro process member
    rcases List.mem_append.mp member with old | new
    · exact grounded process old
    · rw [List.mem_singleton.mp new]
      exact .of_start _ _ _ _
  | becomes changes =>
    obtain ⟨own, ledger⟩ := orderly.process changes.present
    have moved := changes.grounded own ledger (grounded _ (List.mem_of_getElem? changes.present))
    intro process member
    rcases mem_modify changes.present member with old | rfl
    · exact (grounded process old).mono (.refl _) stored
    · exact moved

theorem Reachable.grounded (reachable : system.Reachable) :
    ∀ process ∈ system.processes, process.Grounded system.registered system.world.registry := by
  have both := @Reachable.invariant (fun system => system.Orderly ∧
      ∀ process ∈ system.processes, process.Grounded system.registered system.world.registry)
    ⟨initial_orderly, fun process member => absurd member List.not_mem_nil⟩ fun _ _ _ known result =>
      ⟨((act?_acts result).orderly known.1).1, (act?_acts result).grounded known.1 known.2⟩
  exact (both reachable).2

/-- What a value that was returned tells of every later state: it is the value of the call still, and the references
of the call name complete entries. -/
theorem Reachable.lasting {first : System} (reachable : before.Reachable) {id : Nat} {call : Call} {value : Value}
    (returned : before.processes[id]? = some ⟨call, .returned (.ok value)⟩) (run : Run (fun _ => True) before first) :
    call.evaluate (first.registered.valueOf []) = some value ∧
      ∀ key ∈ call.references, (first.world.registry.get? key.type key).isSome := by
  have grounded := reachable.grounded _ (List.mem_of_getElem? returned)
  exact ⟨grounded.value _ ⟨_, Run.extends run, rfl⟩ value rfl,
    fun key listed => (Run.goes run reachable).complete (grounded.complete listed)⟩

end System

/-! ### Reading again -/

/-- How far an operation has come that only reads since a time at which it had some stakes. -/
structure Phase.Reads (contents : Contents) (stakes : Stakes) (value : Value) (first : World) (phase : Phase)
    (world : World) : Prop where
  timeless : phase.Timeless
  meets : phase.Meets (contents.valueOf []) (some value)
  fewer : phase.task.stakes none ≤ stakes
  counted : ∃ finds, finds + (phase.task.stakes none).card = stakes.card ∧
    world.registry = first.registry.counting finds
  begun : world.begun = first.begun

namespace Phase.Reads

variable {contents : Contents} {stakes : Stakes} {value : Value} {first world later : World} {phase next : Phase}

/-- A phase with the same stakes in a world with the same registry. -/
theorem calm (reads : phase.Reads contents stakes value first world) (timeless : next.Timeless)
    (meets : next.Meets (contents.valueOf []) (some value)) (same : next.task.stakes none = phase.task.stakes none)
    (registry : later.registry = world.registry) (begun : later.begun = world.begun) :
    next.Reads contents stakes value first later where
  timeless
  meets
  fewer := same ▸ reads.fewer
  counted := by
    rw [same, registry]
    exact reads.counted
  begun := begun.trans reads.begun

/-- The stakes of a call without a time limit that has the value are its references when it begins. -/
theorem of_start (call : Call) (id : Nat) (world : World) (limitless : (call.operation id world).deadline = none)
    (known : call.evaluate (contents.valueOf []) = some value) :
    (Phase.looking (call.operation id world) (.start id (call.operation id world).task)).Reads contents
      (pendings none call.references call.scope.anchor) value world world := by
  have stakes : (Phase.looking (call.operation id world) (.start id (call.operation id world).task)).task.stakes none =
      pendings none call.references call.scope.anchor := call.operation_stakes id world none
  refine ⟨⟨limitless, fun error fails => by cases fails⟩, known ▸ call.start_meets id world _, stakes.le,
    ⟨0, by rw [stakes, Nat.zero_add], rfl⟩, rfl⟩

/-- An operation that only reads and has returned something has returned the value and has read all. -/
theorem returned {result : Except ResolveError Value}
    (reads : (Phase.returned result).Reads contents stakes value first world) :
    result = .ok value ∧ world.registry = first.registry.counting stakes.card := by
  obtain ⟨finds, counted, registry⟩ := reads.counted
  have all : finds = stakes.card := by simpa [Phase.task] using counted
  refine ⟨?_, all ▸ registry⟩
  cases result with
  | ok own => exact congrArg Except.ok (Option.some.inj reads.meets).symm
  | error error =>
    cases error with
    | deadlineExceeded length => cases reads.timeless
    | _ => cases reads.meets

end Phase.Reads

namespace System

variable {system started last : System} {action : Action} {stakes : Stakes} {value : Value} {first : World}

theorem Changes.reads {id : Nat} {process : Process} {phase : Phase} {later : World}
    {others : Multiset Hold} (changes : Changes system action id process phase later)
    (orderly : process.Orderly system.registered)
    (ledger : Ledger system.registered system.world.registry system.world.fresh (process.holds + others))
    (complete : stakes.Complete first.registry)
    (reads : process.phase.Reads system.registered stakes value first system.world) :
    phase = .dropped ∨ phase.Reads system.registered stakes value first later := by
  have timeless := changes.timeless orderly ledger reads.timeless
  have meets := (changes.moves orderly ledger).meets _ reads.meets
  cases changes with
  | look present => exact .inr (reads.calm timeless meets rfl rfl rfl)
  | @step _ call operation machine next _ present step =>
    obtain ⟨finds, counted, registry⟩ := reads.counted
    have there : (machine.whole.stakes none).Complete system.world.registry := by
      rw [registry]
      exact complete.mono reads.fewer
    obtain ⟨more, further⟩ := Machine.step_reads orderly.sound reads.meets there step
    refine .inr ⟨timeless, meets, further.fewer.trans reads.fewer, ⟨finds + more, ?_, ?_⟩,
      further.begun.trans reads.begun⟩
    · have spent : more + (next.whole.stakes none).card = (machine.whole.stakes none).card := further.counted
      simp only [Phase.task] at counted ⊢
      omega
    · rw [further.registry, registry, Registry.counting_counting]
  | @conclude _ call operation machine present idle =>
    right
    cases Machine.step_idles idle with
    | @rest number task =>
      -- without a time limit no alarm is set, so the operation waits and the world stays as it is
      have same : Operation.conclude operation ⟨number, .rest task, []⟩ system.world =
          (.waiting { operation with task }, system.world) := by
        simp only [Operation.conclude, Operation.watch, reads.timeless.1]
      rw [same] at timeless meets ⊢
      exact reads.calm timeless meets rfl rfl rfl
    | @finish number result =>
      obtain ⟨later, same, calm⟩ := operation.close_spec result system.world
      have closed : Operation.conclude operation ⟨number, .finish result, []⟩ system.world = (.over result, later) :=
        same
      rw [closed] at timeless meets ⊢
      refine reads.calm timeless meets ?_ calm.registry calm.begun
      cases result <;> simp [Phase.of, Phase.task, Machine.whole, surround, Control.task, Node.references]
  | drop => exact .inl rfl

/-- An operation that begins to read goes on reading while nothing happens but what concerns it, until it is given
up. -/
theorem Run.reads {id : Nat} {call : Call} {phase : Phase} (run : Run (Action.Concerns id) started last)
    (orderly : started.Orderly) (complete : stakes.Complete first.registry)
    (present : started.processes[id]? = some ⟨call, phase⟩)
    (reads : phase.Reads started.registered stakes value first started.world) :
    last.Orderly ∧ last.registered = started.registered ∧ ∃ next, last.processes[id]? = some ⟨call, next⟩ ∧
      (next = .dropped ∨ next.Reads started.registered stakes value first last.world) := by
  induction run with
  | refl => exact ⟨orderly, rfl, phase, present, .inr reads⟩
  | @tail between last _ step ih =>
    obtain ⟨ordered, same, current, there, going⟩ := ih
    obtain ⟨action, concerns, result⟩ := step
    have acts := act?_acts result
    refine ⟨(acts.orderly ordered).1, (act?_registered (Action.Concerns.quiet concerns) result).trans same, ?_⟩
    cases acts with
    | registered | rejected | start => exact concerns.elim
    | @becomes _ other process next later changes =>
      obtain rfl := changes.concerned concerns
      cases there.symm.trans changes.present
      refine ⟨next, by simp [become, there], ?_⟩
      rcases going with dropped | reading
      · cases changes <;> cases dropped
      · obtain ⟨own, ledger⟩ := ordered.process there
        exact same ▸ changes.reads own ledger complete (same ▸ reading)
    | @advance time =>
      have calm := World.Calm.advanceTo between.world time
      exact ⟨current, there, going.imp_right fun reading =>
        reading.calm reading.timeless reading.meets rfl calm.registry calm.begun⟩

section Solo

variable {contents : Contents} {call : Call} {phase : Phase} {world : World}

/-- All that goes on with an operation that is alone concerns it. -/
theorem Run.concerns_solo (run : Run Action.Continues (solo contents call phase world) last) :
    Run (Action.Concerns 0) (solo contents call phase world) last ∧ last.processes.length = 1 := by
  induction run with
  | refl => exact ⟨.refl, rfl⟩
  | @tail between last _ step ih =>
    obtain ⟨run, single⟩ := ih
    obtain ⟨action, continues, result⟩ := step
    have acts := act?_acts result
    cases acts with
    | registered | rejected | start => exact continues.elim
    | @becomes _ id process next later changes =>
      obtain rfl : id = 0 := by
        have inside := (List.getElem?_eq_some_iff.mp changes.present).1
        omega
      have concerns : Action.Concerns 0 action := by cases changes <;> rfl
      exact ⟨run.tail ⟨action, concerns, result⟩, by simpa [become] using single⟩
    | @advance time => exact ⟨run.tail ⟨.advance time, trivial, result⟩, single⟩

end Solo

theorem card_pendings (owner : Option Key) (references : List Key) (anchor : Anchor) :
    (pendings owner references anchor).card = references.length := by
  simp [pendings]

section Again

variable {contents : Contents} {registry : Registry} {config : Config} {node : Node}

/-- Where nobody else is at work, a node whose references name complete entries is resolved by reading. -/
theorem Regular.rereads (regular : (resting contents registry).Regular) (limitless : config.deadline = none)
    (known : contents.evaluate node = some value)
    (complete : ∀ key ∈ node.references, (registry.get? key.type key).isSome) :
    ∃ world, Resolver.Returns config registry node (.ok value) world ∧ world.begun = [] ∧
      world.registry = registry.counting node.references.length := by
  obtain ⟨world, returns⟩ := (regular.returns_ok_iff limitless value).mpr known
  have run := (Run.concerns_solo (regular.returned returns)).1
  have starts := Phase.Reads.of_start (.resolve config node) 0 (.initial registry)
    (by simp [Call.operation, Operation.resolve, limitless]) known
  obtain ⟨_, _, next, present, reads⟩ := Run.reads run (regular.beginning config node).orderly
    (Stakes.complete_pendings complete) rfl starts
  cases present
  obtain dropped | reads := reads
  · cases dropped
  · have counted := reads.returned.2
    rw [card_pendings] at counted
    exact ⟨world, returns, reads.begun, counted⟩

/-- Beside others who stand still, such a node is resolved by reading. -/
theorem Orderly.rereads (orderly : system.Orderly) (limitless : config.deadline = none)
    (known : system.registered.evaluate node = some value)
    (complete : ∀ key ∈ node.references, (system.world.registry.get? key.type key).isSome)
    (start : system.act? (.start (.resolve config node)) = some started)
    (run : Run (Action.Concerns system.processes.length) started last) {phase : Phase}
    (present : last.phase? system.processes.length = some phase) (kept : phase ≠ .dropped) :
    last.world.begun = system.world.begun ∧
      (∃ finds ≤ node.references.length, last.world.registry = system.world.registry.counting finds) ∧
      ∀ result, phase = .returned result →
        result = .ok value ∧ last.world.registry = system.world.registry.counting node.references.length := by
  have starts := Phase.Reads.of_start (.resolve config node) system.processes.length system.world
    (by simp [Call.operation, Operation.resolve, limitless]) known
  have acts := act?_acts start
  have ordered := (acts.orderly orderly).1
  cases acts with
  | becomes changes => cases changes
  | start =>
    obtain ⟨_, _, next, there, reads⟩ := Run.reads run ordered (Stakes.complete_pendings complete)
      List.getElem?_concat_length starts
    rw [phase?, there] at present
    cases present
    have reads := reads.resolve_left kept
    obtain ⟨finds, counted, registry⟩ := reads.counted
    rw [card_pendings] at counted
    refine ⟨reads.begun, ⟨finds, by omega, registry⟩, fun result same => ?_⟩
    dsimp only at same
    subst same
    have ended := reads.returned
    rw [card_pendings] at ended
    exact ended

end Again

/-- A repeated resolution only reads. If a node was once resolved to a value, then after whatever else was
registered, resolved, failed or was given up since, resolving it again without a time limit comes to the same value.
Where nobody else is at work it does return that value; it begins no initialization, and the registry that it
leaves differs from the one that it found in one thing: as many more finds are counted as there are references in
the tree of the node, every occurrence for itself. The same holds while others are at work but stand still: at any
time until the resolution is given up it has begun nothing and has done nothing to the registry but to count some
of these finds, and once it has returned it has returned the value and counted all of them. -/
theorem Reachable.repeated_resolve_reads {before first : System} (reachable : before.Reachable) {id : Nat}
    {config other : Config} {node : Node} {value : Value}
    (returned : before.processes[id]? = some ⟨.resolve config node, .returned (.ok value)⟩)
    (run : Run (fun _ => True) before first) (limitless : other.deadline = none) :
    (first.Idle → ∃ world, Resolver.Returns other first.world.registry node (.ok value) world ∧ world.begun = [] ∧
      world.registry =
        { first.world.registry with hits := first.world.registry.hits + node.references.length }) ∧
    ∀ started last phase, first.act? (.start (.resolve other node)) = some started →
      Run (Action.Concerns first.processes.length) started last →
      last.phase? first.processes.length = some phase → phase ≠ .dropped →
        last.world.begun = first.world.begun ∧
        (∃ finds ≤ node.references.length,
          last.world.registry = { first.world.registry with hits := first.world.registry.hits + finds }) ∧
        ∀ result, phase = .returned result → result = .ok value ∧ last.world.registry =
          { first.world.registry with hits := first.world.registry.hits + node.references.length } := by
  obtain ⟨known, complete⟩ := reachable.lasting returned run
  have later := run.reachable reachable
  exact ⟨fun idle => (later.regular.resting_of_idle idle).rereads limitless known complete,
    fun started last phase start going present kept =>
      later.orderly.rereads limitless known complete start going present kept⟩

/-- Values of a key that comes twice are read twice. -/
example : (Slot.keyed [(.literal (.text "MOTTO"), .reference .text "motto"),
    (.literal (.text "MOTTO"), .reference .text "motto")]).references.length = 2 := rfl

/-- The sum of a deferred number with itself. -/
def doubled : Node :=
  .nested (.record .number [("terms", .repeated [.reference .number "two", .reference .number "two"])])

/-- Its first resolution. -/
def doubling : List Action :=
  [.register ⟨EntityType.number.typeName, "two"⟩ (.deferred (.node EntityType.number.typeName (.literal (.number 2)))),
    .start (.resolve .default doubled)] ++ List.replicate 14 (.step 0)

/-- Something else is registered, and the resolution of something else fails. -/
def afterwards : List Action :=
  [.register ⟨EntityType.text.typeName, "other"⟩ (.value (.text "aside")),
    .start (.resolve .default (.reference .text "missing")), .step 1, .step 1]

theorem repeated_resolve_reads_doubled :
    (following doubling).Reachable ∧
    (following doubling).processes[0]? = some ⟨.resolve .default doubled, .returned (.ok (.number 4))⟩ ∧
    Run (fun _ => True) (following doubling) (following (doubling ++ afterwards)) ∧
    (following (doubling ++ afterwards)).Idle ∧
    ∃ world, Resolver.Returns .default (following (doubling ++ afterwards)).world.registry doubled
      (.ok (.number 4)) world ∧
      world.registry.hits = (following (doubling ++ afterwards)).world.registry.hits + 2 := by
  have reachable : (following doubling).Reachable := run_of_perform doubling (fun _ _ => trivial) rfl
  have returned : (following doubling).processes[0]? =
      some ⟨.resolve .default doubled, .returned (.ok (.number 4))⟩ := by
    rfl
  have run : Run (fun _ => True) (following doubling) (following (doubling ++ afterwards)) :=
    run_of_perform afterwards (fun _ _ => trivial) rfl
  have idle : (following (doubling ++ afterwards)).Idle := by
    have phases : (following (doubling ++ afterwards)).processes.map Process.phase =
        [.returned (.ok (.number 4)), .returned (.error (.unresolvedReference "String" "missing" .root))] := by
      rfl
    intro process member
    have listed := phases ▸ List.mem_map_of_mem (f := Process.phase) member
    rcases List.mem_pair.mp listed with same | same <;> exact same ▸ trivial
  have limitless : Config.default.deadline = none := rfl
  obtain ⟨world, returns, _, registry⟩ := (reachable.repeated_resolve_reads returned run limitless).1 idle
  exact ⟨reachable, returned, run, idle, world, returns, congrArg Registry.hits registry⟩

end System

end Blueprint
