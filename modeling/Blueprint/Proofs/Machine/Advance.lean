import Blueprint.Proofs.Machine.Account
/-! One step of a machine, whatever it is. The ledger and the task agree before and after, the value of the
task is the same where keys mean what sequential evaluation makes of them, and an error tells a cycle
only where there is one. -/

namespace Blueprint

/-- The meanings that keys may come to have: those under contents that hold at least these. -/
def Contents.Meaning (contents : Contents) (lookup : Lookup) : Prop :=
  ∃ more, contents.Extends more ∧ lookup = more.valueOf []

/-- The meaning that keys have. -/
def Contents.Exact (contents : Contents) (lookup : Lookup) : Prop :=
  lookup = contents.valueOf []

theorem Contents.Exact.meaning {contents : Contents} {lookup : Lookup} (exact : contents.Exact lookup) :
    contents.Meaning lookup :=
  ⟨contents, .refl contents, exact⟩

/-- A task in a world that agrees with it and with the claims of others. -/
structure Task.Account (contents : Contents) (roots : List Key) (others : Multiset Hold) (task : Task)
    (world : World) : Prop where
  sound : task.Sound contents.Meaning
  lawful : Stakes.Lawful contents roots (task.stakes none)
  ledger : Ledger contents world.registry world.fresh (Stakes.holds (task.stakes none) + others)

/-- What a step makes of a task and a world. -/
structure Machine.Advances (contents : Contents) (roots : List Key) (others : Multiset Hold) (before : Task)
    (world : World) (result : Machine × World) : Prop where
  account : Task.Account contents roots others result.1.whole result.2
  tracks : Task.Tracks contents.Meaning contents.Exact before result.1.whole
  goes : world.Goes result.2
  justified : ∀ error, result.1.control = .finish (.error error) → error.Justified contents roots

namespace Machine.Advances

variable {contents : Contents} {roots : List Key} {others : Multiset Hold} {before : Task}
  {world between : World} {result : Machine × World}

theorem of_quietly (account : before.Account contents roots others world)
    (quietly : Quietly contents.Meaning before world result) :
    Machine.Advances contents roots others before world result where
  account := {
    sound := quietly.alike.sound
    lawful := by
      rw [quietly.alike.stakes]
      exact account.lawful
    ledger := by
      rw [quietly.alike.stakes, quietly.calm.registry]
      exact account.ledger.mono quietly.calm.fresh }
  tracks := quietly.alike.tracks contents.Exact
  goes := .of_calm quietly.calm
  justified error same := by
    obtain ⟨entity, name, path, rfl⟩ := quietly.unset error same
    trivial

theorem of_goes (goes : world.Goes between)
    (rest : Machine.Advances contents roots others before between result) :
    Machine.Advances contents roots others before world result :=
  ⟨rest.account, rest.tracks, goes.trans rest.goes, rest.justified⟩

/-- A step that changes the task in the middle of layers. -/
theorem at_place {layers : List Layer} {task : Task} (next : Task)
    (sound : (surround layers task).Sound contents.Meaning)
    (around : Stakes.Lawful contents roots (stakesAround layers))
    (whole : result.1.whole = surround layers next)
    (tracks : Task.Tracks contents.Meaning contents.Exact task next)
    (lawful : Stakes.Lawful contents roots (next.stakes (ownerWithin layers)))
    (ledger : Ledger contents result.2.registry result.2.fresh
      (Stakes.holds (next.stakes (ownerWithin layers)) + (Stakes.holds (stakesAround layers) + others)))
    (goes : world.Goes result.2)
    (justified : ∀ error, result.1.control = .finish (.error error) → error.Justified contents roots) :
    Machine.Advances contents roots others (surround layers task) world result := by
  have moves := tracks.surrounded sound
  refine ⟨⟨whole ▸ moves.sound, ?_, ?_⟩, whole ▸ moves, goes, justified⟩
  · rw [whole, stakes_surround, Stakes.lawful_add]
    exact ⟨lawful, around⟩
  · rw [whole, stakes_surround, Stakes.holds_add, add_assoc]
    exact ledger

end Machine.Advances

namespace Stakes

variable {contents : Contents} {roots : List Key}

@[simp] theorem lawful_zero : Stakes.Lawful contents roots 0 := by
  intro stake member
  simp at member

theorem lawful_singleton {owner : Option Key} {stake : Stake} :
    Stakes.Lawful contents roots {(owner, stake)} ↔ stake.Lawful contents roots owner := by
  simp [Lawful]

end Stakes

namespace Task.Account

variable {contents : Contents} {roots : List Key} {others : Multiset Hold} {layers : List Layer}
  {task : Task} {world : World}

/-- The part of an account that is about the task in the middle of layers. -/
theorem place (account : Task.Account contents roots others (surround layers task) world) :
    Stakes.Lawful contents roots (task.stakes (ownerWithin layers)) ∧
      Stakes.Lawful contents roots (stakesAround layers) ∧
      Ledger contents world.registry world.fresh (Stakes.holds (task.stakes (ownerWithin layers)) +
        (Stakes.holds (stakesAround layers) + others)) := by
  have lawful := account.lawful
  have ledger := account.ledger
  rw [stakes_surround, Stakes.lawful_add] at lawful
  rw [stakes_surround, Stakes.holds_add, add_assoc] at ledger
  exact ⟨lawful.1, lawful.2, ledger⟩

section Reference

variable {type : EntityType} {name : String} {scope : Scope}
  (account : Task.Account contents roots others (surround layers (.node (.reference type name) scope)) world)

include account

/-- A reference that is about to be followed is one that may be. -/
theorem pending : (Stake.pending (Node.keyOf type name) scope.anchor).Lawful contents roots (ownerWithin layers) := by
  refine account.place.1 (ownerWithin layers, .pending (Node.keyOf type name) scope.anchor) ?_
  simp [Node.references, pendings]

/-- What a reference can arrive at. -/
theorem arrives (strands : List Strand) :
    Ledger.Arrives contents world.registry world.fresh (Stakes.holds (stakesAround layers) + others) scope.owner
      (Node.keyOf type name) (world.registry.arrive type.typeName (Node.keyOf type name) scope.owner
        ⟨world.fresh, strands⟩) := by
  have ledger := account.place.2.2
  rw [Task.stakes_node, Stakes.holds_pendings, zero_add] at ledger
  have pending := account.pending
  exact ledger.arrive scope.owner (fun other made => pending.refers (pending.anchored.symm.trans made)) strands

end Reference

section Waiter

variable {fetch : Fetch} {ticket : Nat}
  (account : Task.Account contents roots others (surround layers (.waiting fetch ticket)) world)

include account

/-- Whoever stands in a queue is allowed to. -/
theorem waiting : (Stake.waiting fetch ticket).Lawful contents roots (ownerWithin layers) := by
  have own := account.place.1
  rw [Task.stakes_waiting] at own
  exact Stakes.lawful_singleton.mp own

/-- What a waiter that looks again can find. -/
theorem resumes : Ledger.Resumes contents world.registry world.fresh (Stakes.holds (stakesAround layers) + others)
    (ownerWithin layers) fetch.key (world.registry.resume fetch.type.typeName fetch.key ticket) := by
  have ledger := account.place.2.2
  rw [Task.stakes_waiting, Stakes.holds_waiting, Multiset.singleton_add] at ledger
  exact ledger.resume

end Waiter

end Task.Account

namespace Contents

variable {contents : Contents} {lookup : Lookup} {key : Key}

theorem Meaning.of_known (meaning : contents.Meaning lookup) {value : Value}
    (known : contents.valueOf [] key = some value) : lookup key = some value := by
  obtain ⟨more, wider, rfl⟩ := meaning
  exact wider.valueOf key value known

theorem Meaning.of_node (meaning : contents.Meaning lookup) {node : Node}
    (found : contents.node? key = some node) : lookup key = node.evaluate lookup := by
  obtain ⟨more, wider, rfl⟩ := meaning
  exact valueOf_node (wider.node? found)

end Contents

section Closing

variable {contents : Contents} {roots : List Key} {first key : Key} {chain : List Key}

/-- Whoever waits refers to what it waits for, so a chain that another wait would close is a cycle of
references. -/
theorem Ledger.cycle_of_closes {registry : Registry} {fresh : Nat} {holds : Multiset Hold}
    (ledger : Ledger contents registry fresh holds) (closes : registry.waits.Closes first key chain)
    (refers : contents.Refers first key) : contents.Cycle chain := by
  refine Contents.cycle_of_closes closes refers fun other next edge => ?_
  rw [← WaitGraph.mem_bag ledger.records.tidy.distinct, ledger.records.edges, Hold.mem_edges] at edge
  obtain ⟨hold, member, made, rfl⟩ := edge
  exact ledger.refers hold member other made

/-- A cycle may be told at a reference to its first entry, if that one can be reached. -/
theorem Contents.Cycle.justified {rest : List Key} {path : Path} (cycle : contents.Cycle (first :: rest))
    (last : path.lastReference? = some first.text) (reached : contents.Reaches roots first) :
    (ResolveError.referenceCycle ((first :: rest).map Key.text) path).Justified contents roots := by
  refine ⟨first :: rest, cycle, rfl, last, fun key member => ?_⟩
  rcases List.mem_cons.mp member with rfl | later
  · exact reached
  · obtain ⟨root, listed, way⟩ := reached
    exact ⟨root, listed, way.trans (Contents.chain_reaches cycle.linked key later).to_reflTransGen⟩

end Closing

namespace Machine

variable {contents : Contents} {roots : List Key} {others : Multiset Hold} {task : Task}

/-- A fetch that has the turn goes on with the node of its entry, or fails at once if that is no node of the
right type. -/
theorem beginFetch_cases (machine : Machine) (fetch : Fetch) (world : World)
    (registered : contents.origin? fetch.key = some (.deferred fetch.payload)) :
    (∃ node, contents.node? fetch.key = some node ∧ machine.beginFetch fetch world =
      (machine.pollWithin (.inside (.fetching fetch)) (.node node fetch.inner),
        (world.emit (.initializing fetch.key)).emit (.dereferencing fetch.inner.path))) ∨
    contents.node? fetch.key = none ∧ machine.beginFetch fetch world =
      ({ machine with
          control := .finish (.error (.ofRegistry (.about .typeMismatch fetch.key) fetch.scope.path))
          layers := .inside (.fetching fetch) :: machine.layers }, world.emit (.initializing fetch.key)) := by
  rw [Contents.node?, registered]
  unfold beginFetch
  cases fetch.payload with
  | text => exact .inr ⟨rfl, rfl⟩
  | node type node =>
    by_cases same : type = fetch.key.type
    · exact .inl ⟨node, if_pos same, if_pos same⟩
    · exact .inr ⟨if_neg same, if_neg same⟩

section Turn

variable (machine : Machine) (fetch : Fetch) (world : World)
  (sound : (surround machine.layers task).Sound contents.Meaning)
  (value : ∀ lookup, task.value? lookup = lookup fetch.key)
  (around : Stakes.Lawful contents roots (stakesAround machine.layers))
  (lawful : (Stake.turn fetch).Lawful contents roots (ownerWithin machine.layers))
  (ledger : Ledger contents world.registry world.fresh
    (⟨ownerWithin machine.layers, fetch.key, none⟩ ::ₘ
      (Stakes.holds (stakesAround machine.layers) + others)))
  (open' : world.registry.get? fetch.key.type fetch.key = none)

include open'

theorem goes_initializing : world.Goes (world.emit (.initializing fetch.key)) := by
  refine ⟨fun _ _ found => found, [fetch.key], by simp [World.begun, World.emit], fun key member => ?_⟩
  rw [List.mem_singleton.mp member]
  exact open'

include sound value around lawful ledger

/-- A payload that is no node of the right type makes the entry one that has no value. -/
theorem refuseFetch_advances (unusable : contents.node? fetch.key = none) (error : ResolveError)
    (justified : error.Justified contents roots) :
    Advances contents roots others (surround machine.layers task) world
      ({ machine with
          control := .finish (.error error)
          layers := .inside (.fetching fetch) :: machine.layers },
        world.emit (.initializing fetch.key)) := by
  refine .at_place (.inside (.fetching fetch) .forever) sound around rfl ?_ ?_ ?_
    (goes_initializing fetch world open') fun _ same => by cases same; exact justified
  · refine ⟨by simp, fun lookup _ => by simp [Frame.value?], fun lookup exact => ?_⟩
    rw [value, exact, Contents.valueOf_of_deferred (lawful.turns fetch rfl) unusable]
    rfl
  · simpa [Frame.stakes, Stakes.lawful_singleton] using lawful
  · rw [Task.stakes_inside, Stakes.holds_add, Frame.stakes, Stakes.holds_turn, Task.stakes_forever,
      Stakes.holds_zero, add_zero, Multiset.singleton_add]
    exact ledger

/-- A node of the right type is resolved on behalf of the entry. -/
theorem enterFetch_advances {node : Node} (found : contents.node? fetch.key = some node) :
    Advances contents roots others (surround machine.layers task) world
      ({ machine with
          control := .poll (.node node fetch.inner)
          layers := .inside (.fetching fetch) :: machine.layers },
        (world.emit (.initializing fetch.key)).emit (.dereferencing fetch.inner.path)) := by
  have dereferencing : (world.emit (.initializing fetch.key)).Calm
      ((world.emit (.initializing fetch.key)).emit (.dereferencing fetch.inner.path)) :=
    .emit _ (by simp)
  refine .at_place (.inside (.fetching fetch) (.node node fetch.inner)) sound around rfl ?_ ?_ ?_
    ((goes_initializing fetch world open').trans (.of_calm dereferencing)) (by simp)
  · refine ⟨?_, fun lookup meaning => ?_, fun lookup exact => ?_⟩
    · rw [Task.sound_inside]
      refine ⟨fun other same lookup meaning => ?_, by simp⟩
      cases same
      rw [meaning.of_node found]
      exact .of_eq (by simp)
    · rw [value, meaning.of_node found]
      exact .of_eq (by simp [Frame.value?])
    · rw [value, exact.meaning.of_node found]
      simp [Frame.value?]
  · rw [Task.stakes_inside, Stakes.lawful_add, Frame.stakes, Stakes.lawful_singleton, Frame.owner,
      Task.stakes_node]
    refine ⟨lawful, fun stake member => ?_⟩
    obtain ⟨key, listed, rfl⟩ := mem_pendings.mp member
    exact Stake.Lawful.pending_inside lawful.reached found listed
  · rw [Task.stakes_inside, Stakes.holds_add, Frame.stakes, Stakes.holds_turn, Task.stakes_node,
      Stakes.holds_pendings, add_zero, Multiset.singleton_add]
    exact ledger

/-- A fetch that has the turn begins to initialize its entry, or fails because there is nothing in it
that could be resolved. -/
theorem beginFetch_advances :
    Advances contents roots others (surround machine.layers task) world
      (machine.beginFetch fetch world) := by
  rcases beginFetch_cases machine fetch world (lawful.turns fetch rfl) with ⟨node, found, begins⟩ | ⟨unusable, begins⟩
  · rw [begins]
    exact enterFetch_advances machine fetch world sound value around lawful ledger open' found
  · rw [begins]
    exact refuseFetch_advances machine fetch world sound value around lawful ledger open' unusable _ trivial

end Turn

theorem beginFetch_control (machine : Machine) (fetch : Fetch) (world : World) (value : Value) :
    (machine.beginFetch fetch world).1.control ≠ .finish (.ok value) := by
  unfold beginFetch
  split
  · split <;> simp
  · simp

/-- A reference is followed: to a value that is there, to the initialization of its entry, or into the
queue of the entry. An entry that means nothing fails it. -/
theorem dereference_advances (machine : Machine) (type : EntityType) (name : String) (scope : Scope)
    (world : World)
    (account : Task.Account contents roots others
      (surround machine.layers (.node (.reference type name) scope)) world) :
    Advances contents roots others (surround machine.layers (.node (.reference type name) scope)) world
        (machine.dereference type name scope world) ∧
      ∀ value, (machine.dereference type name scope world).1.control = .finish (.ok value) →
        (machine.dereference type name scope world).2.registry.get? type.typeName
          (Node.keyOf type name) = some value := by
  obtain ⟨own, around, ledger⟩ := account.place
  have pending := account.pending
  have anchored : scope.owner = ownerWithin machine.layers := pending.anchored
  have reached : contents.Reaches roots (Node.keyOf type name) := pending.reached
  have value : ∀ lookup : Lookup, (Task.node (.reference type name) scope).value? lookup =
      lookup (Node.keyOf type name) := fun lookup => by simp [Node.evaluate]
  rw [Task.stakes_node, Stakes.holds_pendings, zero_add] at ledger
  have arrives := account.arrives machine.strands
  have kept : ∀ key : Key, (world.registry.arrive type.typeName (Node.keyOf type name) scope.owner
      ⟨world.fresh, machine.strands⟩).2.get? key.type key = world.registry.get? key.type key :=
    fun key => Registry.get?_arrive (Node.keyOf type name) _ _
  unfold dereference
  simp only [World.take, World.arrive]
  generalize world.registry.arrive type.typeName (Node.keyOf type name) scope.owner
    ⟨world.fresh, machine.strands⟩ = outcome at arrives kept
  have sound := account.sound
  have goes : ∀ fresh, world.Goes { world with registry := outcome.2, fresh } := fun fresh =>
    .of_begun (fun key value found => (kept key).trans found) rfl
  cases arrives with
  | missing absent =>
    refine ⟨.at_place .forever sound around rfl ⟨by simp, fun _ _ => by simp, fun lookup exact => ?_⟩
      (by simp) ?_ (goes _) (by simp [ResolveError.ofRegistry, RegistryError.about, ResolveError.Justified]),
      by simp⟩
    · rw [value, exact, Contents.valueOf_of_absent absent, Task.value?_forever]
    · simpa using ledger.mono (Nat.le_succ _)
  | @found stored _ present entries waits =>
    have known := ledger.get? present
    refine ⟨.at_place (.node (.literal stored) (.root .default)) sound around rfl
      ⟨by simp, fun lookup meaning => ?_, fun lookup exact => ?_⟩ (by simp [Node.references]) ?_ (goes _) (by simp),
      fun result same => ?_⟩
    · rw [value, meaning.of_known known]
      simp [Node.evaluate]
    · rw [value, exact.meaning.of_known known]
      simp [Node.evaluate]
    · simpa [Node.references] using (ledger.same entries waits).mono (Nat.le_succ _)
    · cases same
      exact (kept (Node.keyOf type name)).trans present
  | @cycle waiting chain made closes =>
    have owner : ownerWithin machine.layers = some waiting := anchored.symm.trans made
    obtain ⟨refers, last, from'⟩ := pending.inner waiting owner
    have cycle := ledger.cycle_of_closes closes refers
    obtain ⟨rest, rfl⟩ := closes.begins
    have returns : Relation.TransGen contents.Refers (Node.keyOf type name) (Node.keyOf type name) :=
      cycle.returns (by simp)
    refine ⟨.at_place .forever sound around rfl ⟨by simp, fun _ _ => by simp, fun lookup exact => ?_⟩
      (by simp) ?_ (goes _) (fun error same => ?_), by simp⟩
    · rw [value, exact, Contents.valueOf_of_cycle returns, Task.value?_forever]
    · simpa using ledger.mono (Nat.le_succ _)
    · cases same
      exact cycle.justified last from'
  | turn registered open' after =>
    have lawful : (Stake.turn ⟨type, name, scope, _⟩).Lawful contents roots (ownerWithin machine.layers) :=
      (Stake.Lawful.queue pending registered world.fresh).turn
    rw [anchored] at after
    exact ⟨.of_goes (goes _) (beginFetch_advances machine _ _ sound value around lawful
      (after.mono (Nat.le_succ _)) ((kept _).trans open')),
      fun result same => absurd same (beginFetch_control _ _ _ _)⟩
  | queued registered after =>
    rw [anchored] at after
    refine ⟨.at_place (.waiting ⟨type, name, scope, _⟩ world.fresh) sound around rfl
      ⟨by simp, fun lookup _ => ?_, fun lookup _ => ?_⟩ ?_ ?_ (goes _) (by simp), by simp⟩
    · rw [value]
      exact .of_eq (by simp [Fetch.key])
    · rw [value]
      simp [Fetch.key]
    · rw [Task.stakes_waiting, Stakes.lawful_singleton]
      exact .queue pending registered world.fresh
    · rw [Task.stakes_waiting, Stakes.holds_waiting, Multiset.singleton_add]
      exact after

/-- A waiter looks again: it waits on, takes the value that is there, or begins the initialization. -/
theorem awaken_advances (machine : Machine) (fetch : Fetch) (ticket : Nat) (world : World)
    (account : Task.Account contents roots others (surround machine.layers (.waiting fetch ticket)) world) :
    Advances contents roots others (surround machine.layers (.waiting fetch ticket)) world
        (machine.awaken fetch ticket world) ∧
      ∀ value, (machine.awaken fetch ticket world).1.control = .finish (.ok value) →
        (machine.awaken fetch ticket world).2.registry.get? fetch.key.type fetch.key = some value := by
  obtain ⟨own, around, ledger⟩ := account.place
  have sound := account.sound
  have lawful := account.waiting
  have anchored : fetch.scope.owner = ownerWithin machine.layers := lawful.anchored
  have value : ∀ lookup : Lookup, (Task.waiting fetch ticket).value? lookup = lookup fetch.key :=
    fun lookup => by simp
  rw [Task.stakes_waiting, Stakes.holds_waiting, Multiset.singleton_add] at ledger
  have resumes := account.resumes
  have kept : ∀ key : Key, (world.registry.resume fetch.type.typeName fetch.key ticket).2.get? key.type key =
      world.registry.get? key.type key := fun key => Registry.get?_resume fetch.key ticket
  unfold awaken
  simp only [World.resume]
  generalize world.registry.resume fetch.type.typeName fetch.key ticket = outcome at resumes kept
  have goes : world.Goes { world with registry := outcome.2 } :=
    .of_begun (fun key value found => (kept key).trans found) rfl
  cases resumes with
  | waiting =>
    refine ⟨.at_place (.waiting fetch ticket) sound around rfl
      ⟨by simp, fun _ _ => .refl _, fun _ _ => rfl⟩ own ?_ goes (by simp), by simp⟩
    rw [Task.stakes_waiting, Stakes.holds_waiting, Multiset.singleton_add]
    exact ledger
  | @found stored present after =>
    have known := ledger.get? present
    rw [anchored]
    refine ⟨.at_place (.node (.literal stored) (.root .default)) sound around rfl
      ⟨by simp, fun lookup meaning => ?_, fun lookup exact => ?_⟩ (by simp [Node.references]) ?_
      (goes.trans (.unlink _ _ _)) (by simp), fun result same => ?_⟩
    · rw [value, meaning.of_known known]
      simp [Node.evaluate]
    · rw [value, exact.meaning.of_known known]
      simp [Node.evaluate]
    · rw [Task.stakes_node, Stakes.holds_pendings, zero_add]
      exact after
    · cases same
      exact (Registry.get?_unlink _ _).trans present
  | turn open' after =>
    exact ⟨.of_goes goes (beginFetch_advances machine fetch _ sound value around lawful.turn after
      ((kept _).trans open')), fun result same => absurd same (beginFetch_control _ _ _ _)⟩

/-- An initialization has made a value, which is stored. -/
theorem finishFetch_advances (machine : Machine) (fetch : Fetch) (value : Value) (world : World)
    {scope : Scope}
    (account : Task.Account contents roots others
      (surround machine.layers (.inside (.fetching fetch) (.node (.literal value) scope))) world) :
    Advances contents roots others
        (surround machine.layers (.inside (.fetching fetch) (.node (.literal value) scope))) world
        (machine.finishFrame (.fetching fetch) value world) ∧
      (machine.finishFrame (.fetching fetch) value world).2.registry.get? fetch.key.type fetch.key =
        some value := by
  obtain ⟨own, around, ledger⟩ := account.place
  have sound := account.sound
  rw [Task.stakes_inside, Stakes.lawful_add, Frame.stakes, Stakes.lawful_singleton] at own
  have anchored : fetch.scope.owner = ownerWithin machine.layers := own.1.anchored
  rw [Task.stakes_inside, Stakes.holds_add, Frame.stakes, Stakes.holds_turn, Task.stakes_node,
    Stakes.holds_pendings, add_zero, Multiset.singleton_add] at ledger
  have known : contents.valueOf [] fetch.key = some value := by
    have inner := ((Task.sound_inside _ _).mp (sound_of_surround sound)).1 fetch rfl
    exact inner _ ⟨contents, .refl contents, rfl⟩ value (by simp [Node.evaluate])
  obtain ⟨entry, found⟩ := ledger.entry_of_placed (own.1.turns fetch rfl)
  have settled := ledger.settle known
  have present := Registry.get?_settle found value
  have stored : ∀ (key : Key) (other : Value), world.registry.get? key.type key = some other →
      (world.registry.settle fetch.key ⟨fetch.key.type, value⟩).2.get? key.type key = some other := by
    intro key other before
    by_cases same : key = fetch.key
    · subst same
      rw [present, ← known, ← ledger.get? before]
    · rw [Registry.get?_settle_other same, before]
  have goes : world.Goes (world.settle fetch.key ⟨fetch.key.type, value⟩) := .of_registry _ stored
  simp only [finishFrame]
  rw [anchored]
  refine ⟨.at_place (.node (.literal value) (.root .default)) sound around rfl
    ⟨by simp, fun lookup _ => ?_, fun lookup _ => ?_⟩ (by simp [Node.references]) ?_
    (goes.trans (.unlink _ _ _)) (by simp), ?_⟩
  · exact .of_eq (by simp [Frame.value?, Node.evaluate])
  · simp [Frame.value?, Node.evaluate]
  · rw [Task.stakes_node, Stakes.holds_pendings, zero_add]
    simp only [World.unlink, World.settle, World.Goes.wakeAll_registry, World.Struck.wakeAll_fresh]
    exact settled
  · simp only [World.unlink, World.settle, World.Goes.wakeAll_registry]
    exact (Registry.get?_unlink _ _).trans present

/-- A failure leaves a layer: what else runs there is dropped, and an initialization passes its turn
on. -/
theorem failIn_advances (machine : Machine) (layer : Layer) (error : ResolveError) (world : World)
    (justified : error.Justified contents roots)
    (account : Task.Account contents roots others (surround machine.layers (layer.around .forever)) world) :
    Advances contents roots others (surround machine.layers (layer.around .forever)) world
      (machine.finish (.error error), failIn layer world) := by
  obtain ⟨own, around, ledger⟩ := account.place
  have sound := account.sound
  have inner : (layer.around .forever).Sound contents.Meaning := sound_of_surround sound
  have struck : World.Struck contents (Stakes.holds (stakesAround machine.layers) + others) world
      (failIn layer world) := by
    rw [Layer.stakes_around, Task.stakes_forever, zero_add] at own ledger
    cases layer with
    | inside frame =>
      cases frame with
      | fetching fetch =>
        rw [Layer.stakes, Frame.stakes, Stakes.lawful_singleton] at own
        have anchored : fetch.scope.owner = ownerWithin machine.layers := own.anchored
        rw [failIn, anchored]
        rw [Layer.stakes, Frame.stakes, Stakes.holds_turn, Multiset.singleton_add] at ledger
        exact .release ledger
      | present | tagged | folding | stage =>
        exact .refl (by simpa [Layer.stakes, Frame.stakes, failIn] using ledger)
    | joining before after =>
      rw [Layer.stakes, ← stakesOfParts_append] at own ledger
      rw [Layer.around, Task.sound_join, soundParts_append, soundParts_running] at inner
      have rest : SoundParts contents.Meaning (before ++ after) :=
        (soundParts_append _ _ _).mpr ⟨inner.1, inner.2.2⟩
      exact cancelParts_struck (fun task _ => cancel_struck task) _ world _ rest own.anchored ledger
    | fanning fan position tally =>
      rw [Layer.around, Task.sound_fan, soundElements_iff, soundElements_iff] at inner
      rw [Layer.stakes, Stakes.lawful_add] at own
      rw [Layer.stakes, Stakes.holds_add, holds_queued inner.1.unstarted, zero_add] at ledger
      have dropped := cancelElements_struck (fun element _ => cancel_struck element.2) _ world _
        (soundElements_iff.mpr fun element member => inner.2.2 element (List.mem_cons_of_mem _ member))
        own.2.anchored ledger
      exact dropped.calm (.forget _ _)
  refine .at_place .forever sound around rfl ⟨by simp, fun _ _ => by simp, fun lookup _ => ?_⟩ (by simp) ?_
    struck.goes fun other same => by cases same; exact justified
  · rw [Layer.value?_around_none inner (by simp)]
    simp
  · simpa using struck.ledger

/-- The account of a machine: that of its whole task, and what its error tells. -/
structure Account (contents : Contents) (roots : List Key) (others : Multiset Hold) (machine : Machine)
    (world : World) : Prop where
  whole : Task.Account contents roots others machine.whole world
  justified : ∀ error, machine.control = .finish (.error error) → error.Justified contents roots

theorem pollTask_advances (machine : Machine) (task : Task) (world : World)
    (account : Task.Account contents roots others (surround machine.layers task) world) :
    Advances contents roots others (surround machine.layers task) world (machine.pollTask task world) := by
  by_cases alone : ¬ Consults task
  · exact .of_quietly account (machine.pollTask_quiet task world alone account.sound)
  · rw [not_not] at alone
    unfold Consults at alone
    split at alone
    next type name scope => exact (machine.dereference_advances type name scope world account).1
    next fetch ticket => exact (machine.awaken_advances fetch ticket world account).1
    next => exact absurd alone id

theorem finishIn_advances (machine : Machine) (layer : Layer) (value : Value) (world : World)
    (account : Task.Account contents roots others
      (surround machine.layers (layer.around (.node (.literal value) (.root .default)))) world) :
    Advances contents roots others
      (surround machine.layers (layer.around (.node (.literal value) (.root .default)))) world
      (machine.finishIn layer value world) := by
  by_cases free : ∀ fetch, layer ≠ .inside (.fetching fetch)
  · exact .of_quietly account (machine.finishIn_quiet layer value world free account.sound)
  · simp only [ne_eq, not_forall, not_not] at free
    obtain ⟨fetch, rfl⟩ := free
    exact (machine.finishFetch_advances fetch value world account).1

/-- Every step advances. -/
theorem step_advances {machine after : Machine} {world later : World}
    (account : machine.Account contents roots others world)
    (step : machine.step world = some (after, later)) :
    Advances contents roots others machine.whole world (after, later) := by
  obtain ⟨whole, justified⟩ := account
  generalize (after, later) = result at step ⊢
  cases step_steps step with
  | poll => exact pollTask_advances _ _ world whole
  | @rest operation task layer layers =>
    exact .of_quietly whole (restIn_quiet ⟨operation, .rest task, layers⟩ layer task world whole.sound)
  | @finish operation value layer layers =>
    exact finishIn_advances ⟨operation, .finish (.ok value), layers⟩ layer value world whole
  | @fail operation error layer layers =>
    exact failIn_advances ⟨operation, .finish (.error error), layers⟩ layer error world (justified error rfl) whole

end Machine

end Blueprint
