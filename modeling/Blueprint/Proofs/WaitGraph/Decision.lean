import Mathlib.Data.List.Nodup
import Mathlib.Data.Multiset.Filter
import Mathlib.Logic.Relation
import Blueprint.Proofs.WaitGraph.Edges
import Blueprint.Proofs.WaitGraph.Search
import Blueprint.Registry
/-! Adding a wait decides whether it would close a cycle, whatever the graph looks like: it may have
cycles already, repeat edges and list its owners in any order. Only that each owner is listed once is
used. Marking an entry pays for the paths that then go onto the stack, since its edges are never
followed again, so there are at most as many rounds as edges and one more. -/

namespace Blueprint.WaitGraph

variable {graph other : WaitGraph} {goal owner target : Key}

/-- A search round by round, with the paths on its stack, the number of rounds and the result. Each
round takes one path from the stack. -/
inductive Searches (graph : WaitGraph) (goal : Key) :
    List Key → List (List Key) → Nat → Option (List Key) → Prop where
  | exhausted {visited : List Key} : Searches graph goal visited [] 0 none
  | found {visited earlier : List Key} {rest : List (List Key)} :
      Searches graph goal visited ((goal :: earlier) :: rest) 1 (some (goal :: earlier).reverse)
  /-- the path is stale: its last entry has been marked by another one -/
  | stale {visited earlier : List Key} {last : Key} {rest : List (List Key)} {rounds : Nat}
      {result : Option (List Key)} :
      last ≠ goal → last ∈ visited → Searches graph goal visited rest rounds result →
      Searches graph goal visited ((last :: earlier) :: rest) (rounds + 1) result
  | marked {visited earlier : List Key} {last : Key} {rest : List (List Key)} {rounds : Nat}
      {result : Option (List Key)} :
      last ≠ goal → last ∉ visited →
      Searches graph goal (last :: visited)
        (graph.extensions (last :: visited) last (last :: earlier) ++ rest) rounds result →
      Searches graph goal visited ((last :: earlier) :: rest) (rounds + 1) result

theorem ownersOutside_cons (graph : WaitGraph) (visited : List Key) (last : Key) :
    graph.ownersOutside (last :: visited) = elsewhere (graph.ownersOutside visited) last := by
  rw [elsewhere, ownersOutside, ownersOutside, List.filter_filter]
  refine List.filter_congr fun item _ => ?_
  simp [not_or]

theorem get?_ownersOutside (graph : WaitGraph) {visited : List Key} {last : Key}
    (fresh : last ∉ visited) :
    OrderedMap.get? (graph.ownersOutside visited) last = OrderedMap.get? graph.edges last := by
  simp only [OrderedMap.get?, ownersOutside, List.find?_filter]
  congr 2
  funext item
  by_cases same : item.1 = last
  · simp [same, fresh]
  · simp [same]

theorem extensions_length_le (graph : WaitGraph) (visited : List Key) (last : Key) (path : List Key) :
    (graph.extensions visited last path).length ≤ (graph.targets last).length := by
  rw [extensions, List.length_map, List.length_reverse]
  exact List.length_filter_le _ _

/-- Marking an entry uses up its edges. -/
theorem card_waits_ownersOutside (distinct : (graph.edges.map (·.1)).Nodup) {visited : List Key}
    {last : Key} (fresh : last ∉ visited) :
    (waits (graph.ownersOutside visited)).card =
      (graph.targets last).length + (waits (graph.ownersOutside (last :: visited))).card := by
  have unmarked : ((graph.ownersOutside visited).map (·.1)).Nodup :=
    (List.filter_sublist.map _).nodup distinct
  rw [waits_split _ unmarked last, get?_ownersOutside graph fresh, ← ownersOutside_cons,
    Multiset.card_add, Multiset.coe_card, List.length_map, targets]

/-- Every path on the stack and every edge of an unmarked entry cost at most one round. -/
theorem search_ends (distinct : (graph.edges.map (·.1)).Nodup) {visited : List Key}
    {stack : List (List Key)} (solid : ∀ path ∈ stack, path ≠ []) :
    ∃ rounds ≤ stack.length + (waits (graph.ownersOutside visited)).card,
      graph.Searches goal visited stack rounds (graph.search goal visited stack) := by
  fun_induction WaitGraph.search graph goal visited stack with
  | case1 => exact ⟨0, Nat.zero_le _, .exhausted⟩
  | case2 => exact absurd rfl (solid [] List.mem_cons_self)
  | case3 visited earlier rest => exact ⟨1, by simp only [List.length_cons]; omega, .found⟩
  | case4 visited last earlier rest different known ih =>
    obtain ⟨rounds, few, run⟩ := ih fun path member => solid path (List.mem_cons_of_mem _ member)
    exact ⟨rounds + 1, by rw [List.length_cons]; omega, .stale different known run⟩
  | case5 visited last earlier rest different fresh ih =>
    have lengthened : ∀ path ∈ graph.extensions (last :: visited) last (last :: earlier) ++ rest,
        path ≠ [] := by
      intro path member
      rcases List.mem_append.mp member with new | old
      · obtain ⟨next, _, rfl⟩ := List.mem_map.mp new
        exact List.cons_ne_nil _ _
      · exact solid path (List.mem_cons_of_mem _ old)
    obtain ⟨rounds, few, run⟩ := ih lengthened
    refine ⟨rounds + 1, ?_, .marked different fresh run⟩
    have pushed := graph.extensions_length_le (last :: visited) last (last :: earlier)
    rw [List.length_append] at few
    rw [card_waits_ownersOutside distinct fresh, List.length_cons]
    omega

theorem path?_ends (distinct : (graph.edges.map (·.1)).Nodup) (start goal : Key) :
    ∃ rounds ≤ graph.bag.card + 1,
      graph.Searches goal [] [[start]] rounds (graph.path? start goal) := by
  have solid : ∀ path ∈ [[start]], path ≠ [] := by simp
  obtain ⟨rounds, few, run⟩ := @search_ends graph goal distinct [] _ solid
  have everyone : graph.ownersOutside [] = graph.edges := by simp [ownersOutside]
  rw [everyone, List.length_singleton, Nat.add_comm] at few
  exact ⟨rounds, few, run⟩

/-- A wait is refused exactly if its owner waits for itself then. -/
theorem add_error_iff :
    (∃ chain, graph.add owner target = .error chain) ↔
      owner = target ∨ Relation.TransGen graph.Edge target owner := by
  rw [← Relation.reflTransGen_iff_eq_or_transGen, ← path?_isSome_iff, add]
  split
  next same =>
    subst same
    exact ⟨fun _ => path?_isSome_iff.mpr .refl, fun _ => ⟨_, rfl⟩⟩
  next different =>
    cases graph.path? target owner with
    | none => simp
    | some path => simp

/-- What holds of the graph after a wait was accepted: it has one more edge and no new cycle, and
taking that edge out again, also after other changes, leaves the edges without it. -/
structure Accepts (graph : WaitGraph) (owner target : Key) (other : WaitGraph) : Prop where
  distinct : (other.edges.map (·.1)).Nodup
  adds : other.bag = (owner, target) ::ₘ graph.bag
  acyclic : graph.Acyclic → other.Acyclic
  restores : ∀ (later : WaitGraph) (more : Multiset (Key × Key)), (later.edges.map (·.1)).Nodup →
    later.bag = other.bag + more → (later.remove owner target).bag = graph.bag + more

theorem add_accepts (distinct : (graph.edges.map (·.1)).Nodup)
    (accepted : graph.add owner target = .ok other) : graph.Accepts owner target other where
  distinct := add_distinct distinct accepted
  adds := add_bag distinct accepted
  acyclic acyclic := add_acyclic distinct acyclic accepted
  restores later more unique grown := by
    rw [add_bag distinct accepted, Multiset.cons_add] at grown
    have present : (owner, target) ∈ later.bag := grown ▸ Multiset.mem_cons_self _ _
    have removed := (remove_spec unique present).2
    exact (Multiset.cons_inj_right _).mp (removed.symm.trans grown)

/-- A fetch that is refused leaves all waits as they are. -/
theorem arrive_keeps_waits {registry : Registry} {chain : List Key}
    (refused : registry.waits.add owner target = .error chain) (type : TypeName) (waiter : Waiter) :
    (registry.arrive type target (some owner) waiter).2.waits = registry.waits := by
  have unlinked : registry.link (some owner) target = .error (.cycle (chain.map Key.text)) := by
    rw [Registry.link, refused]
  unfold Registry.arrive
  split
  · rfl
  · split
    · rfl
    · dsimp only
      split <;> rfl
    · rfl
    · rw [unlinked]

/-- Adding a wait decides reachability. The search ends after at most as many rounds as there are
edges and one more. The wait is refused exactly if it is for the owner itself or the owner can be
reached from what it would wait for; then the cycle is told and the graph stays as it is. Otherwise
the graph gets this one edge, which closes no cycle and can be taken out again. -/
theorem add_decides_reachability (distinct : (graph.edges.map (·.1)).Nodup) (owner target : Key) :
    (∃ rounds ≤ graph.bag.card + 1,
      graph.Searches owner [] [[target]] rounds (graph.path? target owner)) ∧
    ((∃ chain, graph.add owner target = .error chain) ↔
      owner = target ∨ Relation.TransGen graph.Edge target owner) ∧
    (∀ chain, graph.add owner target = .error chain →
      graph.Closes owner target chain ∧
      ∀ (registry : Registry) (type : TypeName) (waiter : Waiter), registry.waits = graph →
        (registry.arrive type target (some owner) waiter).2.waits = graph) ∧
    ∀ other, graph.add owner target = .ok other → graph.Accepts owner target other := by
  refine ⟨path?_ends distinct target owner, add_error_iff, fun chain refused => ?_,
    fun other accepted => add_accepts distinct accepted⟩
  refine ⟨add_error refused, fun registry type waiter same => ?_⟩
  subst same
  exact arrive_keeps_waits refused type waiter

section Example

/-- A key of one type. -/
private def job (name : String) : Key := ⟨⟨"jobs::Job"⟩, name⟩

/-- Two entries wait for each other and a third one waits twice for one of them. -/
private def twisted : WaitGraph :=
  ⟨[(job "deploy", [job "build", job "build"]), (job "build", [job "test"]),
    (job "test", [job "build"])]⟩

theorem add_decides_reachability_twisted :
    (twisted.edges.map (·.1)).Nodup ∧
      (∃ chain, twisted.add (job "test") (job "deploy") = .error chain ∧
        twisted.Closes (job "test") (job "deploy") chain) ∧
      ∃ other, twisted.add (job "deploy") (job "test") = .ok other ∧
        other.bag = (job "deploy", job "test") ::ₘ twisted.bag := by
  have distinct : (twisted.edges.map (·.1)).Nodup := by decide
  refine ⟨distinct, ?_, ?_⟩
  · obtain ⟨_, refused, told, _⟩ := add_decides_reachability distinct (job "test") (job "deploy")
    have way : Relation.TransGen twisted.Edge (job "deploy") (job "test") :=
      .tail (.single (b := job "build") (by unfold Edge; decide)) (by unfold Edge; decide)
    obtain ⟨chain, same⟩ := refused.mpr (.inr way)
    exact ⟨chain, same, (told chain same).1⟩
  · obtain ⟨_, refused, _, added⟩ := add_decides_reachability distinct (job "deploy") (job "test")
    cases same : twisted.add (job "deploy") (job "test") with
    | ok other => exact ⟨other, rfl, (added other same).adds⟩
    | error chain =>
      -- nobody waits for the third entry, so no way leads back to it
      have apart : ∀ key, ¬ twisted.Edge key (job "deploy") := by
        intro key edge
        have inside : (key, job "deploy") ∈ twisted.bag := (mem_bag distinct).mpr edge
        revert inside
        rw [bag, waits, Multiset.mem_coe]
        simp [twisted, job]
      rcases refused.mp ⟨chain, same⟩ with equal | way
      · exact absurd equal (by decide)
      · obtain ⟨key, _, edge⟩ := Relation.TransGen.tail'_iff.mp way
        exact absurd edge (apart key)

end Example

end Blueprint.WaitGraph
