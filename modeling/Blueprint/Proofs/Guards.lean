import Blueprint.Proofs.Initialization
/-! The wait graph mirrors the fetches that are under way. Every fetch that is made on behalf of an entry keeps
one edge for as long as it waits or initializes, however it comes to its end, so the graph leaks nothing:
with nobody at work it is empty, and what is not complete can be initialized again. -/

namespace Blueprint

/-- The wait that a fetch keeps in the graph, if it is made on behalf of an entry. -/
def Fetch.guard? (fetch : Fetch) : Option (Key × Key) :=
  fetch.scope.owner.map (·, fetch.key)

/-- A fetch keeps its wait while it stands in the queue of an entry or initializes it. -/
def Stake.guard? : Stake → Option (Key × Key)
  | pending _ _ => none
  | waiting fetch _ | turn fetch => fetch.guard?

/-- The waits that the fetches of a task keep. -/
def Task.guards (task : Task) : Multiset (Key × Key) :=
  (task.stakes none).filterMap fun stake => stake.2.guard?

/-- An operation is not in flight any more. -/
def Phase.Ended : Phase → Prop
  | resting _ | looking _ _ => False
  | returned _ | dropped => True

namespace System

/-- The waits that the fetches of all operations keep. -/
def guards (system : System) : Multiset (Key × Key) :=
  (system.processes.map fun process => process.phase.task.guards).sum

/-- No operation is in flight. -/
def Idle (system : System) : Prop :=
  ∀ process ∈ system.processes, process.phase.Ended

end System

/-- Where scopes know on whose behalf they work, the waits that fetches keep are those that their claims
stand for. -/
theorem Stakes.guards_eq {stakes : Stakes} (anchored : stakes.Anchored) :
    stakes.filterMap (fun stake => stake.2.guard?) = Hold.edges stakes.holds := by
  obtain ⟨list, rfl⟩ := Quot.exists_rep stakes
  refine congrArg Multiset.ofList ?_
  rw [List.filterMap_filterMap]
  refine List.filterMap_congr fun stake member => ?_
  have own : stake.2.anchor.owner = stake.1 := anchored stake member
  obtain ⟨owner, stake⟩ := stake
  cases stake with
  | pending key anchor => rfl
  | waiting fetch ticket | turn fetch =>
    change fetch.scope.owner = owner at own
    rw [← own]
    rfl

namespace WaitGraph

variable {graph : WaitGraph}

/-- Whoever is listed waits for something. -/
theorem Tidy.edge_of_owner (tidy : graph.Tidy) {owner : Key} (listed : owner ∈ graph.edges.map (·.1)) :
    ∃ target, graph.Edge owner target := by
  obtain ⟨item, member, rfl⟩ := List.mem_map.mp listed
  obtain ⟨target, first⟩ := List.exists_mem_of_ne_nil _ (tidy.busy item member)
  refine ⟨target, ?_⟩
  rw [Edge, targets, OrderedMap.get?_of_mem tidy.distinct member]
  exact first

theorem Tidy.eq_empty (tidy : graph.Tidy) (none : graph.bag = 0) : graph = empty := by
  obtain ⟨edges⟩ := graph
  cases edges with
  | nil => rfl
  | cons item rest =>
    have listed : item.1 ∈ (item :: rest).map (·.1) := List.mem_cons_self
    obtain ⟨target, edge⟩ := tidy.edge_of_owner listed
    have present := (mem_bag tidy.distinct).mpr edge
    rw [none] at present
    exact absurd present (Multiset.notMem_zero _)

end WaitGraph

namespace Registry

variable {registry : Registry}

/-- Entries that wait are told apart and are not complete, so they and the complete ones are no more than
all entries. -/
theorem completed_add_waiting_le (tidy : registry.waits.Tidy)
    (open' : ∀ owner ∈ registry.waits.edges.map (·.1), ∃ entry, registry.entry? owner = some entry ∧
      entry.value = none) :
    registry.stats.completed + registry.stats.waiting ≤ registry.stats.entries := by
  have owners : (registry.waits.edges.map (·.1)).length ≤
      ((registry.entries.filter fun item => !item.2.isComplete).map (·.1)).length := by
    apply List.Subperm.length_le
    apply List.subperm_of_subset tidy.distinct
    intro owner listed
    obtain ⟨entry, found, absent⟩ := open' owner listed
    refine List.mem_map.mpr ⟨(owner, entry), List.mem_filter.mpr ⟨OrderedMap.mem_of_get? found, ?_⟩, rfl⟩
    simp [Entry.isComplete, absent]
  rw [List.length_map, List.length_map] at owners
  calc registry.stats.completed + registry.stats.waiting
      = (registry.entries.filter fun item => item.2.isComplete).length + registry.waits.edges.length := rfl
    _ ≤ (registry.entries.filter fun item => item.2.isComplete).length +
          (registry.entries.filter fun item => !item.2.isComplete).length := by omega
    _ = registry.stats.entries := (List.length_eq_length_filter_add _).symm

/-- Where nobody waits, any wait is recorded that is not for oneself. -/
theorem link_of_quiet (quiet : registry.waits = .empty) {owner : Option Key} {key : Key}
    (other : owner ≠ some key) : ∃ linked, registry.link owner key = .ok linked := by
  cases owner with
  | none => exact ⟨registry, rfl⟩
  | some owner =>
    have different : owner ≠ key := fun same => other (congrArg some same)
    have apart : registry.waits.path? key owner = none := by
      rw [← Option.not_isSome_iff_eq_none, WaitGraph.path?_isSome_iff, quiet]
      intro reaches
      rcases Relation.ReflTransGen.cases_head reaches with same | ⟨next, edge, _⟩
      · exact different same.symm
      · exact absurd edge List.not_mem_nil
    exact ⟨_, by rw [link, WaitGraph.add, if_neg different, apart]⟩

/-- An entry at rest is initialized by the next fetch, whoever makes it, if only nobody waits yet and the
entry is not fetched on behalf of itself. -/
theorem arrive_deferred {key : Key} {payload : Payload} (found : registry.entry? key = some (.deferred payload))
    (quiet : registry.waits = .empty) {owner : Option Key} (other : owner ≠ some key) (waiter : Waiter) :
    ∃ linked, registry.arrive key.type key owner waiter = (.turn payload, linked) := by
  obtain ⟨linked, accepted⟩ := link_of_quiet quiet other
  refine ⟨linked.beginTurn key, ?_⟩
  unfold arrive
  rw [if_neg (by simp), found]
  dsimp only [Entry.deferred]
  rw [accepted]

end Registry

namespace System

variable {system : System}

theorem Orderly.guards_eq (orderly : system.Orderly) : system.guards = Hold.edges system.holds := by
  have each := orderly.each
  unfold guards holds
  generalize system.processes = processes at each
  induction processes with
  | nil => rfl
  | cons process rest ih =>
    have own : process.phase.task.guards = Hold.edges process.holds :=
      Stakes.guards_eq (each process List.mem_cons_self).lawful.anchored
    rw [List.map_cons, List.map_cons, List.sum_cons, List.sum_cons, own,
      ih fun other member => each other (List.mem_cons_of_mem _ member)]
    exact (Multiset.filterMap_add _ _ _).symm

/-- Whoever waits is a deferred entry that is being initialized and not complete. -/
theorem Orderly.owner_of_edge (orderly : system.Orderly) {owner target : Key}
    (edge : system.world.registry.waits.Edge owner target) :
    owner ∈ system.initializing ∧ ∃ payload queue,
      system.registered.origin? owner = some (.deferred payload) ∧
      system.world.registry.entry? owner = some ⟨none, some payload, .held, queue⟩ := by
  have records := orderly.ledger.records
  rw [← WaitGraph.mem_bag records.tidy.distinct, records.edges, Hold.mem_edges] at edge
  obtain ⟨hold, member, made, rfl⟩ := edge
  obtain ⟨process, listed, ⟨owner', stake⟩, staked, makes⟩ := mem_holds.mp member
  have same : owner' = some owner := by
    rw [← made]
    cases stake <;> cases makes <;> rfl
  subst same
  -- the fetch lies in an initialization of its owner
  rcases process.phase.task.turn_of_stake staked with nobody | ⟨outer, fetch, turn, rfl⟩
  · cases nobody
  have holds : ⟨outer, fetch.key, none⟩ ∈ system.holds := mem_holds.mpr ⟨process, listed, _, turn, rfl⟩
  refine ⟨Multiset.mem_map.mpr ⟨_, Multiset.mem_filter.mpr ⟨holds, rfl⟩, rfl⟩, ?_⟩
  have claimed : none ∈ Hold.claims system.holds fetch.key :=
    Multiset.mem_map.mpr ⟨_, Multiset.mem_filter.mpr ⟨holds, rfl⟩, rfl⟩
  obtain ⟨payload, registered⟩ := orderly.ledger.placed _ holds
  obtain ⟨entry, found⟩ := orderly.ledger.entry_of_placed registered
  have fits := orderly.ledger.fits _ entry found
  generalize Hold.claims system.holds fetch.key = claims at fits claimed
  cases fits with
  | complete known nobody => exact absurd claimed nobody
  | @deferred payload gate queue _ registered seated =>
    cases seated with
    | idle => exact absurd claimed (Multiset.notMem_zero _)
    | held queue => exact ⟨payload, queue, registered, found⟩
    | granted ticket queue => simp at claimed

theorem Idle.holds (idle : system.Idle) : system.holds = 0 := by
  unfold System.holds
  refine List.sum_eq_zero fun holds member => ?_
  obtain ⟨process, listed, rfl⟩ := List.mem_map.mp member
  have ended := idle process listed
  unfold Process.holds
  cases phase : process.phase with
  | resting operation | looking operation machine => simp [phase, Phase.Ended] at ended
  | returned result | dropped => simp [Phase.task]

/-- With nobody at work nobody waits. -/
theorem Orderly.waits_of_idle (orderly : system.Orderly) (idle : system.Idle) :
    system.world.registry.waits = .empty := by
  have records := orderly.ledger.records
  apply records.tidy.eq_empty
  rw [records.edges, idle.holds]
  rfl

/-- With nobody at work an entry that is not complete is as it was registered. -/
theorem Orderly.entry_of_idle (orderly : system.Orderly) (idle : system.Idle) {key : Key} {entry : Entry}
    (found : system.world.registry.entry? key = some entry) (open' : entry.value = none) :
    ∃ payload, system.registered.origin? key = some (.deferred payload) ∧ entry = .deferred payload := by
  have fits := orderly.ledger.fits key entry found
  rw [idle.holds] at fits
  generalize same : Hold.claims 0 key = claims at fits
  cases fits with
  | complete => cases open'
  | @deferred payload gate queue _ registered seated =>
    refine ⟨payload, registered, ?_⟩
    cases seated with
    | idle => rfl
    | held queue => exact absurd same.symm Multiset.cons_ne_zero
    | granted ticket queue => exact absurd same.symm Multiset.cons_ne_zero

/-- The wait graph mirrors the live waits. In every state that can be reached its edges, with repetitions, are
the waits that fetches keep; there is no cycle among them, and nobody is listed without waiting for anything;
whoever waits is a deferred entry that is being initialized and not complete, so those who wait and the complete
entries are no more than all entries. Once no operation is in flight, nobody waits, and every entry that is not
complete still has its payload and is initialized by the next fetch. -/
theorem Reachable.waits_mirrored (reachable : system.Reachable) :
    system.world.registry.waits.bag = system.guards ∧
      system.world.registry.waits.Acyclic ∧
      (∀ item ∈ system.world.registry.waits.edges, item.2 ≠ []) ∧
      (∀ owner target, system.world.registry.waits.Edge owner target →
        owner ∈ system.initializing ∧ ∃ payload queue,
          system.registered.origin? owner = some (.deferred payload) ∧
          system.world.registry.entry? owner = some ⟨none, some payload, .held, queue⟩) ∧
      system.world.registry.stats.completed + system.world.registry.stats.waiting ≤
        system.world.registry.stats.entries ∧
      (system.Idle → system.world.registry.waits.edges = [] ∧ system.world.registry.stats.waiting = 0 ∧
        ∀ key entry, system.world.registry.entry? key = some entry → entry.value = none →
          ∃ payload, system.registered.origin? key = some (.deferred payload) ∧ entry = .deferred payload ∧
            ∀ owner waiter, owner ≠ some key →
              ∃ linked, system.world.registry.arrive key.type key owner waiter = (.turn payload, linked)) := by
  have orderly := reachable.orderly
  have records := orderly.ledger.records
  refine ⟨?_, records.acyclic, records.tidy.busy, fun owner target edge => orderly.owner_of_edge edge, ?_,
    fun idle => ?_⟩
  · calc system.world.registry.waits.bag = Hold.edges system.holds := records.edges
      _ = system.guards := orderly.guards_eq.symm
  · apply Registry.completed_add_waiting_le records.tidy
    intro owner listed
    obtain ⟨target, edge⟩ := records.tidy.edge_of_owner listed
    obtain ⟨_, payload, queue, _, found⟩ := orderly.owner_of_edge edge
    exact ⟨_, found, rfl⟩
  · have quiet := orderly.waits_of_idle idle
    refine ⟨by rw [quiet]; rfl, by rw [Registry.stats, quiet]; rfl, fun key entry found open' => ?_⟩
    obtain ⟨payload, registered, rfl⟩ := orderly.entry_of_idle idle found open'
    exact ⟨payload, registered, rfl, fun owner waiter other =>
      Registry.arrive_deferred found quiet other waiter⟩

/-- A step that takes the turn of an entry. -/
theorem act?_of_turn {id : Nat} {looked : Operation} {machine : Machine} {type : EntityType} {name : String}
    {scope : Scope} {payload : Payload} {linked : Registry}
    (ahead : system.phase? id = some (.looking looked machine))
    (polls : machine.control = .poll (.node (.reference type name) scope))
    (arrived : system.world.registry.arrive type.typeName (Node.keyOf type name) scope.owner
      ⟨system.world.fresh, machine.strands⟩ = (.turn payload, linked)) :
    system.act? (.step id) =
      let next := machine.beginFetch ⟨type, name, scope, payload⟩
        { system.world with registry := linked, fresh := system.world.fresh + 1 }
      some (system.become id (.looking looked next.1) next.2) := by
  have steps : machine.step system.world = some (machine.dereference type name scope system.world) := by
    obtain ⟨operation, control, layers⟩ := machine
    cases polls
    rfl
  simp only [act?, ahead, steps]
  simp only [Machine.dereference, World.take, World.arrive, arrived]

/-- A deferred text that refers to another one, whose node never completes, and a resolution of it that has
its turn. -/
def onward : List Action :=
  [.register ⟨EntityType.text.typeName, "outer"⟩
      (.deferred (.node EntityType.text.typeName (.reference .text "inner"))),
    .register ⟨EntityType.text.typeName, "inner"⟩
      (.deferred (.node EntityType.text.typeName (.nested (.stalled .text 0)))),
    .start (.resolve .default (.reference .text "outer")), .step 0]

/-- A deferred text that refers to a text that is not registered, and a resolution of it that fails. -/
def thwarted : List Action :=
  [.register ⟨EntityType.text.typeName, "outer"⟩
      (.deferred (.node EntityType.text.typeName (.reference .text "inner"))),
    .start (.resolve .default (.reference .text "outer")), .step 0, .step 0, .step 0, .step 0]

/-- One step after the turn the graph has an edge; after a failure the entry is free again. -/
theorem waits_mirrored_onward :
    (∃ system : System, (following onward).act? (.step 0) = some system ∧ system.world.registry.waits.bag =
      {(⟨EntityType.text.typeName, "outer"⟩, ⟨EntityType.text.typeName, "inner"⟩)}) ∧
    (following thwarted).world.registry.stats.initializations = 1 ∧
    ∀ owner waiter, owner ≠ some ⟨EntityType.text.typeName, "outer"⟩ →
      ∃ linked, (following thwarted).world.registry.arrive EntityType.text.typeName
        ⟨EntityType.text.typeName, "outer"⟩ owner waiter =
          (.turn (.node EntityType.text.typeName (.reference .text "inner")), linked) := by
  constructor
  · have before : (following onward).Reachable := run_of_perform onward (fun _ _ => trivial) rfl
    have found : (following onward).world.registry.entry? ⟨EntityType.text.typeName, "inner"⟩ =
        some (.deferred (.node EntityType.text.typeName (.nested (.stalled .text 0)))) := rfl
    obtain ⟨linked, arrived⟩ := Registry.arrive_deferred found rfl
      (show some ⟨EntityType.text.typeName, "outer"⟩ ≠ some _ by decide) ⟨1, [.operation 0]⟩
    have ahead : (following onward).phase? 0 = some (.looking
        ⟨0, .node (.reference .text "outer") (.root .default), none, true⟩
        ⟨0, .poll (.node (.reference .text "inner")
            ((Scope.root .default).dereferencing ⟨EntityType.text.typeName, "outer"⟩)),
          [.inside (.fetching ⟨.text, "outer", .root .default,
            .node EntityType.text.typeName (.reference .text "inner")⟩)]⟩) := rfl
    have step := act?_of_turn ahead rfl arrived
    have reachable : Reachable _ := before.tail ⟨_, trivial, step⟩
    exact ⟨_, step, reachable.waits_mirrored.1.trans rfl⟩
  · have reachable : (following thwarted).Reachable := run_of_perform thwarted (fun _ _ => trivial) rfl
    have idle : (following thwarted).Idle := by
      intro process member
      obtain rfl := List.mem_singleton.mp member
      trivial
    obtain ⟨_, _, _, _, _, rests⟩ := reachable.waits_mirrored
    obtain ⟨payload, registered, same, next⟩ := (rests idle).2.2 ⟨EntityType.text.typeName, "outer"⟩ _ rfl rfl
    cases same
    exact ⟨rfl, next⟩

end System

end Blueprint
