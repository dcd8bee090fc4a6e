import Blueprint.Proofs.System.Orderly
/-! An entry is initialized at most once at a time and never again once it is complete. What it then holds
is the value it was registered with or the one that its node has by sequential evaluation; that value
stays, and whoever follows a reference to the entry gets it. -/

namespace Blueprint

/-- The key whose reference the next step of a machine may answer: it looks the key up, wakes in the queue
of its entry, or has made the value itself. -/
def Machine.reference? : Machine → Option Key
  | ⟨_, .poll (.node (.reference type name) _), _⟩ => some (Node.keyOf type name)
  | ⟨_, .poll (.waiting fetch _), _⟩ => some fetch.key
  | ⟨_, .finish (.ok _), .inside (.fetching fetch) :: _⟩ => some fetch.key
  | _ => none

/-- A reference that is answered is answered with the value that is stored then. -/
theorem Machine.step_reference {contents : Contents} {roots : List Key} {others : Multiset Hold}
    {machine next : Machine} {world later : World} {key : Key} {value : Value}
    (account : machine.Account contents roots others world) (follows : machine.reference? = some key)
    (step : machine.step world = some (next, later)) (answered : next.control = .finish (.ok value)) :
    later.registry.get? key.type key = some value := by
  unfold Machine.reference? at follows
  split at follows
  next operation type name scope layers =>
    cases follows
    obtain ⟨rfl, rfl⟩ := Prod.mk.inj (Option.some.inj step)
    exact (Machine.dereference_advances _ type name scope world account.whole).2 value answered
  next operation fetch ticket layers =>
    cases follows
    obtain ⟨rfl, rfl⟩ := Prod.mk.inj (Option.some.inj step)
    exact (Machine.awaken_advances _ fetch ticket world account.whole).2 value answered
  next operation own fetch layers =>
    cases follows
    obtain ⟨rfl, rfl⟩ := Prod.mk.inj (Option.some.inj step)
    have made : own = value := by
      have same : (Control.finish (.ok own)) = .finish (.ok value) := answered
      injection same with same
      injection same
    subst made
    exact (Machine.finishFetch_advances ⟨operation, .finish (.ok own), layers⟩ fetch own world
      account.whole).2
  next => cases follows

theorem Phase.of_ne_looking (progress : Operation.Progress) {operation : Operation} {machine : Machine} :
    Phase.of progress ≠ .looking operation machine := by
  cases progress <;> simp [Phase.of]

namespace System

theorem become_phase? {system : System} {id : Nat} {process : Process}
    (present : system.processes[id]? = some process) {phase : Phase} {world : World} :
    (system.become id phase world).phase? id = some phase := by
  simp [phase?, become, present]

variable {system before after : System} {key : Key} {value : Value}

/-- The entries that are being initialized, each as often as there are initializers. -/
def initializing (system : System) : Multiset Key :=
  (system.holds.filter fun hold => hold.ticket = none).map Hold.key

theorem count_initializing (system : System) (key : Key) :
    system.initializing.count key = (Hold.claims system.holds key).count none := by
  rw [initializing, Hold.claims, Multiset.count_map, Multiset.count_map, Multiset.filter_filter,
    Multiset.filter_filter]
  congr 1
  refine Multiset.filter_congr fun hold _ => ?_
  exact ⟨fun both => ⟨both.2.symm, both.1.symm⟩, fun both => ⟨both.2.symm, both.1.symm⟩⟩

theorem Seated.count_turn {gate : Gate} {queue : List Waiter} {claims : Multiset (Option Nat)}
    (seated : Seated gate queue claims) : claims.count none ≤ 1 := by
  have waiting : (↑(queue.map fun waiter => some waiter.ticket) : Multiset (Option Nat)).count none = 0 := by
    rw [Multiset.count_eq_zero]
    simp
  cases seated with
  | idle => simp
  | held => rw [Multiset.count_cons_self, waiting]
  | granted ticket => rw [Multiset.count_cons_of_ne (by simp), waiting]; exact Nat.zero_le _

theorem Orderly.initializing_nodup (orderly : system.Orderly) : system.initializing.Nodup := by
  rw [Multiset.nodup_iff_count_le_one]
  intro key
  rw [count_initializing]
  by_cases claimed : ∃ hold ∈ system.holds, hold.key = key
  · obtain ⟨hold, member, rfl⟩ := claimed
    obtain ⟨payload, registered⟩ := orderly.ledger.placed hold member
    obtain ⟨entry, found⟩ := orderly.ledger.entry_of_placed registered
    cases orderly.ledger.fits _ entry found with
    | complete _ nobody => rw [Multiset.count_eq_zero_of_notMem nobody]; exact Nat.zero_le _
    | deferred _ seated => exact Seated.count_turn seated
  · have none : Hold.claims system.holds key = 0 := by
      rw [Hold.claims, Multiset.map_eq_zero, Multiset.filter_eq_nil]
      exact fun hold member same => claimed ⟨hold, member, same⟩
    simp [none]

/-- Nobody initializes an entry that is complete. -/
theorem Orderly.not_initializing (orderly : system.Orderly)
    (stored : system.world.registry.get? key.type key = some value) : key ∉ system.initializing := by
  rw [← Multiset.count_eq_zero, count_initializing]
  cases found : system.world.registry.entry? key with
  | none => simp [Registry.get?, found] at stored
  | some entry =>
    cases orderly.ledger.fits _ entry found with
    | complete _ nobody => exact Multiset.count_eq_zero_of_notMem nobody
    | deferred => simp [Registry.get?, found] at stored

/-- What is stored stays along every run, and no initialization of it begins. -/
theorem Run.goes {allowed : Action → Prop} (run : Run allowed before after) (reachable : before.Reachable) :
    before.world.Goes after.world := by
  induction run with
  | refl => exact .of_calm (.refl _)
  | tail run step ih =>
    obtain ⟨action, _, result⟩ := step
    exact ih.trans ((act?_acts result).orderly (Run.reachable run reachable).orderly).2

theorem Orderly.step_reference (orderly : system.Orderly) {id : Nat} {operation : Operation}
    {machine next : Machine} (looking : system.phase? id = some (.looking operation machine))
    (follows : machine.reference? = some key) (result : system.act? (.step id) = some after)
    (goesOn : after.phase? id = some (.looking operation next))
    (answered : next.control = .finish (.ok value)) :
    after.world.registry.get? key.type key = some value := by
  obtain ⟨call, present⟩ := process_of_phase looking
  obtain ⟨others, account⟩ := orderly.account present
  cases step : machine.step system.world with
  | none =>
    simp only [act?, looking, step, Option.some.injEq] at result
    subst result
    rw [become_phase? present] at goesOn
    exact absurd (Option.some.inj goesOn) (Phase.of_ne_looking _)
  | some next' =>
    obtain ⟨next', later⟩ := next'
    simp only [act?, looking, step, Option.some.injEq] at result
    subst result
    rw [become_phase? present] at goesOn
    cases goesOn
    exact Machine.step_reference account follows step answered

/-- Initialization happens once and is stable. In every state that can be reached:
no entry has two initializers;
an entry that is complete has none, holds what it was registered with or what sequential evaluation
makes of its node, and along every run keeps that value and does not begin to be initialized again;
a step that answers a reference answers it with what is then stored. -/
theorem Reachable.initialized_once (reachable : system.Reachable) :
    system.initializing.Nodup ∧
      (∀ key entry stored, system.world.registry.entry? key = some entry → entry.value = some stored →
        stored.type = key.type ∧ key ∉ system.initializing ∧
        (system.registered.origin? key = some (.value stored.value) ∨
          ∃ node, system.registered.node? key = some node ∧
            system.registered.evaluate node = some stored.value) ∧
        ∀ after, Run (fun _ => True) system after →
          after.world.registry.get? key.type key = some stored.value ∧
          after.world.begun.count key = system.world.begun.count key) ∧
      ∀ id operation machine next key value after,
        system.phase? id = some (.looking operation machine) → machine.reference? = some key →
          system.act? (.step id) = some after → after.phase? id = some (.looking operation next) →
            next.control = .finish (.ok value) → after.world.registry.get? key.type key = some value := by
  have orderly := reachable.orderly
  refine ⟨orderly.initializing_nodup, fun key entry stored found complete => ?_,
    fun _ _ _ _ _ _ _ looking follows result goesOn answered =>
      orderly.step_reference looking follows result goesOn answered⟩
  cases orderly.ledger.fits key entry found with
  | deferred => cases complete
  | @complete value _ known nobody =>
    cases complete
    have present : system.world.registry.get? key.type key = some value := by
      simp [Registry.get?, found, Entry.complete, Registry.asType, Except.toOption]
    refine ⟨rfl, orderly.not_initializing present, ?_, fun after run => ?_⟩
    · rcases Contents.valueOf_cases known with registered | ⟨node, registered, _, _⟩
      · exact .inl registered
      · exact .inr ⟨node, registered, by rw [← Contents.valueOf_node registered, known]⟩
    · have goes := run.goes reachable
      obtain ⟨keys, begun, fresh⟩ := goes.begun
      refine ⟨goes.stored key value present, ?_⟩
      have never : keys.count key = 0 := List.count_eq_zero.mpr fun member => by
        simp [fresh key member] at present
      rw [begun, List.count_append, never, Nat.add_zero]

/-- A deferred text is registered and resolved. -/
def settled : List Action :=
  [.register ⟨EntityType.text.typeName, "motto"⟩
      (.deferred (.node EntityType.text.typeName (.literal (.text "onward")))),
    .start (.resolve .default (.reference .text "motto")), .step 0, .step 0, .step 0]

theorem initialized_once_settled : (following settled).Reachable ∧
    ∀ after, Run (fun _ => True) (following settled) after →
      after.world.registry.get? EntityType.text.typeName ⟨EntityType.text.typeName, "motto"⟩ =
        some (.text "onward") := by
  have reachable : (following settled).Reachable := run_of_perform settled (fun _ _ => trivial) rfl
  have complete : (following settled).world.registry.entry? ⟨EntityType.text.typeName, "motto"⟩ =
      some (.complete ⟨EntityType.text.typeName, .text "onward"⟩) := rfl
  exact ⟨reachable, fun after run =>
    (((Reachable.initialized_once reachable).2.1 _ _ _ complete rfl).2.2.2 after run).1⟩

end System

end Blueprint
