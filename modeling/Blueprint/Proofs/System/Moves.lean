import Blueprint.Proofs.Initialization
import Blueprint.Proofs.Machine.Moves
/-! Every run of a system is one at the desk of its registry, where each fetch that an operation makes is one of the
fetches there. What the figures of the registry account for at any desk they account for in every run. -/

namespace Blueprint

/-- The keys that were registered with a payload in place of a value. -/
def Contents.deferrals (contents : Contents) : List Key := contents.flatMap fun entry => entry.2.defers entry.1

/-- What is given up with the work of an operation that has looked at it when its time is over. -/
def Operation.expires (operation : Operation) (machine : Machine) (world : World) : List Move :=
  match machine with
  | ⟨_, .rest task, []⟩ => if operation.deadline.any (·.due ≤ world.now) then task.drops else []
  | _ => []

namespace System

variable {before after system : System} {action : Action}

/-- What happens at the desk by an action. -/
def moves (system : System) : Action → List Move
  | .register key origin => [.register key origin]
  | .start _ | .look _ | .advance _ => []
  | .step id =>
    match system.phase? id with
    | some (.looking operation machine) => machine.moves system.world ++ operation.expires machine system.world
    | _ => []
  | .drop id =>
    match system.phase? id with
    | some (.resting operation) => operation.task.drops
    | _ => []

/-- What happens at the desk by actions one after another. -/
def movesAlong (system : System) : List Action → List Move
  | [] => []
  | action :: rest =>
    match system.act? action with
    | some next => system.moves action ++ next.movesAlong rest
    | none => []

/-- The desk of a system. -/
structure Books (system : System) (desk : Desk) : Prop where
  mirrors : Desk.Mirrors system.world.registry system.holds desk
  deferred : desk.deferred = system.registered.deferrals

theorem initial_books : initial.Books .initial := ⟨⟨Desk.initial_sound, rfl, rfl⟩, rfl⟩

theorem Books.brings {desk : Desk} {moves : List Move} (books : before.Books desk)
    (brings : Desk.Brings moves before.world.registry before.holds after.world.registry after.holds)
    (same : after.registered = before.registered) : ∃ next, Desk.Run moves desk next ∧ after.Books next := by
  obtain ⟨next, run, mirrors, still⟩ := brings desk books.mirrors
  exact ⟨next, run, mirrors, by rw [still, same, books.deferred]⟩

/-- A machine that is at the end of a look does nothing. -/
theorem moves_of_idle {machine : Machine} {world : World} (idle : machine.step world = none) :
    machine.moves world = [] := by
  cases Machine.step_idles idle with
  | rest => rfl
  | @finish _ result => cases result <;> rfl

theorem expires_of_step {operation : Operation} {machine next : Machine} {world later : World}
    (step : machine.step world = some (next, later)) : operation.expires machine world = [] := by
  generalize (next, later) = result at step
  cases Machine.step_steps step with
  | poll | rest | finish | fail => rfl

/-- An operation that is over claims nothing. -/
theorem holds_returned (call : Call) (result : Except ResolveError Value) :
    Process.holds ⟨call, .returned result⟩ = 0 := by
  simp [Process.holds, Phase.task]

/-- Nothing happens at the desk when an operation that claims nothing is over. -/
theorem close_brings (call : Call) (operation : Operation) (result : Except ResolveError Value) (world : World)
    (others : Multiset Hold) :
    Desk.Brings [] world.registry others (operation.close result world).2.registry
      (Process.holds ⟨call, .of (operation.close result world).1⟩ + others) := by
  obtain ⟨later, same, calm⟩ := operation.close_spec result world
  rw [same, Phase.of, holds_returned, zero_add, calm.registry]
  exact .refl _ _

/-- An operation rests with its work, which is dropped if its time is over. -/
theorem watch_brings (call : Call) (operation : Operation) {world : World} {others : Multiset Hold}
    (drops : Desk.Brings operation.task.drops world.registry (Stakes.holds (operation.task.stakes none) + others)
      (world.cancel operation.task).registry others) :
    Desk.Brings (if operation.deadline.any (·.due ≤ world.now) then operation.task.drops else []) world.registry
      (Stakes.holds (operation.task.stakes none) + others) (operation.watch world).2.registry
      (Process.holds ⟨call, .of (operation.watch world).1⟩ + others) := by
  obtain ⟨id, task, deadline, whole⟩ := operation
  have rests : ∀ (deadline : Option Deadline) (later : World), world.Calm later →
      Desk.Brings [] world.registry (Stakes.holds (task.stakes none) + others) later.registry
        (Process.holds ⟨call, .resting ⟨id, task, deadline, whole⟩⟩ + others) := by
    intro deadline later calm
    rw [calm.registry]
    exact .refl _ _
  unfold Operation.watch
  cases deadline with
  | none => exact rests none world (.refl world)
  | some deadline =>
    simp only [Option.any_some, decide_eq_true_eq]
    split
    next late =>
      have expired := drops.append (close_brings call ⟨id, task, some deadline, whole⟩
        (.error (.deadlineExceeded deadline.length)) _ others)
      rwa [List.append_nil] at expired
    next =>
      split
      · exact rests _ world (.refl world)
      · exact rests _ _ (.setTimer world _ _)

/-- The end of a look drops the work of an operation whose time is over, and nothing else. -/
theorem conclude_brings {contents : Contents} {others : Multiset Hold} {call : Call} {operation : Operation}
    {machine : Machine} {world : World} (idle : machine.step world = none)
    (orderly : Process.Orderly contents ⟨call, .looking operation machine⟩) :
    Desk.Brings (operation.expires machine world) world.registry
      (Process.holds ⟨call, .looking operation machine⟩ + others)
      (operation.conclude machine world).2.registry
      (Process.holds ⟨call, .of (operation.conclude machine world).1⟩ + others) := by
  cases Machine.step_idles idle with
  | @rest number task =>
    exact watch_brings call { operation with task }
      (task.drops_brings none world others orderly.sound orderly.lawful.anchored)
  | @finish number result =>
    have before : Process.holds ⟨call, .looking operation ⟨number, .finish result, []⟩⟩ = 0 := by
      cases result <;> simp [Process.holds, Phase.task, Machine.whole, surround, Control.task, Node.references]
    rw [before, zero_add]
    exact close_brings call operation result world others

/-- What becomes of one operation is at the desk what becomes of its fetches. -/
theorem Changes.brings {id : Nat} {process : Process} {phase : Phase} {later : World} {others : Multiset Hold}
    (changes : Changes system action id process phase later) (orderly : process.Orderly system.registered)
    (ledger : Ledger system.registered system.world.registry system.world.fresh (process.holds + others)) :
    Desk.Brings (system.moves action) system.world.registry (process.holds + others) later.registry
      (Process.holds { process with phase } + others) := by
  cases changes with
  | look present => exact .refl _ _
  | @step id call operation machine next later present step =>
    rw [System.moves, phase?_of_present present]
    simp only [expires_of_step step, List.append_nil]
    exact Machine.step_brings (account_of_orderly orderly ledger) step
  | conclude present idle =>
    rw [System.moves, phase?_of_present present]
    simp only [moves_of_idle idle, List.nil_append]
    exact conclude_brings idle orderly
  | @drop id call operation present =>
    have dropped := operation.task.drops_brings none system.world others orderly.sound orderly.lawful.anchored
    have idle : Process.holds ⟨call, .dropped⟩ = 0 := by simp [Process.holds, Phase.task]
    have same : (operation.cancel system.world).registry = (system.world.cancel operation.task).registry := by
      unfold Operation.cancel
      split <;> rfl
    rw [System.moves, phase?_of_present present, idle, zero_add, same]
    exact dropped

/-- What an action does at the desk. -/
theorem act_books {desk : Desk} (orderly : before.Orderly) (books : before.Books desk)
    (result : before.act? action = some after) :
    ∃ next, Desk.Run (before.moves action) desk next ∧ after.Books next := by
  cases act?_acts result with
  | @registered key origin registry accepted later same =>
    have moved : Desk.Moves (.register key origin) desk
        { desk with registry, deferred := desk.deferred ++ origin.defers key } :=
      .registered (by rw [books.mirrors.registry]; exact accepted)
    refine ⟨_, .single moved, ⟨books.mirrors.sound.moves moved, same.symm, books.mirrors.holds⟩, ?_⟩
    rw [Contents.deferrals, List.flatMap_append, List.flatMap_singleton, books.deferred]
    rfl
  | @rejected key origin =>
    have taken : ∃ error, before.world.registry.register key (origin.entry key) = .error error := by
      cases accepted : before.world.registry.register key (origin.entry key) with
      | error error => exact ⟨error, rfl⟩
      | ok registry =>
        simp only [act?, World.register, accepted, Option.some.injEq] at result
        have longer := congrArg (fun system => system.registered.length) result
        simp at longer
    obtain ⟨error, refused⟩ := taken
    exact ⟨desk, .single (.rejected (by rw [books.mirrors.registry]; exact refused)), books.mirrors, books.deferred⟩
  | @start call outermost =>
    refine books.brings ?_ rfl
    rw [holds_start]
    exact .refl _ _
  | @becomes action id process phase later changes =>
    obtain ⟨own, ledger⟩ := orderly.process changes.present
    refine books.brings ?_ rfl
    rw [holds_become changes.present, holds_of_present changes.present]
    exact changes.brings own ledger
  | @advance time forward =>
    refine books.brings ?_ rfl
    rw [(World.Calm.advanceTo before.world time).registry]
    exact .refl _ _

/-- What a run does at the desk. -/
theorem perform_books {desk : Desk} {actions : List Action} (orderly : before.Orderly) (books : before.Books desk)
    (result : before.perform actions = some after) :
    ∃ next, Desk.Run (before.movesAlong actions) desk next ∧ after.Books next := by
  induction actions generalizing before desk with
  | nil =>
    cases result
    exact ⟨desk, .nil desk, books⟩
  | cons action rest ih =>
    obtain ⟨middle, first, later⟩ := Option.bind_eq_some_iff.mp result
    obtain ⟨halfway, run, kept⟩ := act_books orderly books first
    obtain ⟨next, further, ending⟩ := ih ((act?_acts first).orderly orderly).1 kept later
    rw [movesAlong, first]
    exact ⟨next, run.append further, ending⟩

/-- The fetches at work at the desk are the initializers at work in the system. -/
theorem Books.initializing {desk : Desk} (books : system.Books desk) :
    desk.standing .initializing = system.initializing.card := by
  have each : ∀ visits : Multiset Visit, visits.countP (fun visit => visit.standing = .initializing) =
      ((visits.bind Visit.claim).filter fun hold => hold.ticket = none).card := by
    intro visits
    induction visits using Multiset.induction with
    | empty => rfl
    | cons visit rest ih =>
      rw [Multiset.countP_cons, Multiset.cons_bind, Multiset.filter_add, Multiset.card_add, ← ih, Nat.add_comm,
        Visit.claim]
      cases visit.standing <;> simp [Multiset.filter_singleton]
  rw [System.initializing, Multiset.card_map, ← books.mirrors.holds]
  exact each desk.visits

/-- The figures of a registry account for every fetch. However fetches and registrations come after one another at a
desk, hits are the fetches that found their entry complete; initializations are the deferred entries that are complete
and the initializers that failed, were given up or are at work; no fetch adds to both figures or more than one, and
none adds anything that was refused, was answered by the initializer of another or was given up while it waited; no
figure ever decreases. And every run of operations on a registry is a run at its desk. -/
theorem counters_account :
    (∀ moves desk, Desk.Run moves .initial desk →
      desk.Accounted ∧ desk.visits.card = moves.countP Move.isArrival ∧
        (∀ more next, Desk.Run more desk next → desk.registry.Grows next.registry) ∧
        ∀ ticket key type owner strands next, Desk.Moves (.arrive ticket key type owner strands) desk next →
          (type ≠ key.type ∨ desk.registry.entry? key = none ∨
            desk.registry.complete key = false ∧ ∃ error, desk.registry.link owner key = .error error) →
          next.registry = desk.registry ∧ ∃ error, next.visits =
            ⟨ticket, key, type, owner, desk.registry.complete key, .ended (.refused error), 0, 0⟩ ::ₘ desk.visits) ∧
      ∀ actions system, initial.perform actions = some system →
        ∃ desk, Desk.Run (initial.movesAlong actions) .initial desk ∧ desk.registry = system.world.registry ∧
          desk.deferred = system.registered.deferrals ∧ desk.holds = system.holds ∧
            desk.standing .initializing = system.initializing.card := by
  refine ⟨fun moves desk run => ?_, fun actions system result => ?_⟩
  · have sound := Desk.initial_sound.run run
    have card := run.card
    rw [Desk.initial, Multiset.card_zero, Nat.zero_add] at card
    exact ⟨sound.accounted, card, fun more next further => sound.run_grows further,
      fun ticket key type owner strands next moved vain => Desk.turned_away moved vain⟩
  · obtain ⟨desk, run, books⟩ := perform_books initial_orderly initial_books result
    exact ⟨desk, run, books.mirrors.registry, books.deferred, books.mirrors.holds, books.initializing⟩

/-- Two operations fetch a deferred text that stands for another. The one that has the turn fails, as the other text
is not there; the one that waits initializes the entry after it has been registered; a third finds the text. -/
def retried : List Action :=
  let flag : Key := ⟨EntityType.text.typeName, "flag"⟩
  let pole : Key := ⟨EntityType.text.typeName, "pole"⟩
  let fetch : Action := .start (.resolve .default (.reference .text "flag"))
  [.register flag (.deferred (.node EntityType.text.typeName (.reference .text "pole"))), fetch, fetch, .step 0, .step 1,
    .step 0, .step 0, .step 0, .step 1, .register pole (.value (.text "up")), .look 1, .step 1, .step 1, .step 1,
    .step 1, fetch, .step 2, .step 2]

theorem counters_account_retried : ∃ desk, Desk.Run (initial.movesAlong retried) .initial desk ∧ desk.Accounted ∧
    desk.visits.card = 5 ∧ desk.registry.stats = ⟨2, 2, 2, 2, 0⟩ := by
  obtain ⟨desk, run, same, _⟩ := counters_account.2 retried (following retried) rfl
  obtain ⟨accounted, card, _⟩ := counters_account.1 _ desk run
  exact ⟨desk, run, accounted, card.trans rfl, by rw [same]; rfl⟩

end System

end Blueprint
