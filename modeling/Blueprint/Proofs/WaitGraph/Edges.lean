import Mathlib.Algebra.Order.Group.Multiset
import Mathlib.Data.Multiset.Filter
import Blueprint.Proofs.OrderedMap
import Blueprint.Proofs.WaitGraph.Search
/-! Adding and removing waits. The graph is read as a multiset of edges; adding puts one edge in and
removing takes one out, whatever happens to the order. An edge that would close a cycle is refused
with the cycle, so a graph without cycles stays without. -/

namespace Blueprint.WaitGraph

variable {graph other : WaitGraph} {owner target : Key}

/-- The waits of a list of owners, repeated ones as often as they occur. -/
def waits (edges : List (Key × List Key)) : Multiset (Key × Key) :=
  edges.flatMap fun item => item.2.map (item.1, ·)

/-- The waits of everyone but one owner. -/
def elsewhere (edges : List (Key × List Key)) (owner : Key) : List (Key × List Key) :=
  edges.filter fun item => item.1 ≠ owner

theorem mem_elsewhere {edges : List (Key × List Key)} {item : Key × List Key} :
    item ∈ elsewhere edges owner ↔ item ∈ edges ∧ item.1 ≠ owner := by
  simp [elsewhere]

/-- All edges of a graph. -/
def bag (graph : WaitGraph) : Multiset (Key × Key) :=
  waits graph.edges

/-- Each owner occurs once and waits for something. -/
structure Tidy (graph : WaitGraph) : Prop where
  distinct : (graph.edges.map (·.1)).Nodup
  busy : ∀ item ∈ graph.edges, item.2 ≠ []

/-- No entry waits for itself, directly or through others. -/
def Acyclic (graph : WaitGraph) : Prop :=
  ∀ key, ¬ Relation.TransGen graph.Edge key key

theorem empty_tidy : empty.Tidy := ⟨by simp [empty], by simp [empty]⟩

theorem empty_acyclic : empty.Acyclic := by
  intro key cycle
  obtain ⟨next, edge, _⟩ := Relation.TransGen.head'_iff.mp cycle
  simp [Edge, targets, empty] at edge

theorem waits_split (edges : List (Key × List Key)) (distinct : (edges.map (·.1)).Nodup)
    (owner : Key) :
    waits edges = ((OrderedMap.get? edges owner).getD []).map (owner, ·) +
      waits (elsewhere edges owner) := by
  induction edges with
  | nil => simp [waits, elsewhere]
  | cons item rest ih =>
    rw [List.map_cons, List.nodup_cons] at distinct
    have later := ih distinct.2
    have unfold_cons : ∀ others, waits (item :: others) = ↑(item.2.map (item.1, ·)) + waits others :=
      fun others => by simp [waits]
    rw [unfold_cons, OrderedMap.get?_cons]
    by_cases same : item.1 = owner
    · have gone : elsewhere (item :: rest) owner = rest := by
        rw [elsewhere, List.filter_cons_of_neg (by simpa using same)]
        refine List.filter_eq_self.mpr fun entry member => ?_
        have apart : entry.1 ≠ owner := fun equal =>
          distinct.1 (same.trans equal.symm ▸ List.mem_map_of_mem (f := Prod.fst) member)
        simpa using apart
      rw [gone, if_pos same, same]
      rfl
    · have kept : elsewhere (item :: rest) owner = item :: elsewhere rest owner := by
        rw [elsewhere, List.filter_cons_of_pos (by simpa using same), elsewhere]
      rw [later, kept, unfold_cons, if_neg same]
      exact add_left_comm _ _ _

theorem bag_split (distinct : (graph.edges.map (·.1)).Nodup) (owner : Key) :
    graph.bag = ↑((graph.targets owner).map (owner, ·)) +
      waits (elsewhere graph.edges owner) :=
  waits_split graph.edges distinct owner

theorem elsewhere_insert (edges : List (Key × List Key)) (owner : Key) (content : List Key) :
    elsewhere (OrderedMap.insert edges owner content) owner = elsewhere edges owner := by
  unfold elsewhere
  induction edges with
  | nil => simp [OrderedMap.insert]
  | cons item rest ih =>
    by_cases same : item.1 = owner
    · simp [OrderedMap.insert, same]
    · simp only [OrderedMap.insert, if_neg same]
      rw [List.filter_cons_of_pos (by simpa using same), ih,
        List.filter_cons_of_pos (by simpa using same)]

theorem insert_distinct (distinct : (graph.edges.map (·.1)).Nodup) (owner : Key) (content : List Key) :
    ((OrderedMap.insert graph.edges owner content).map (·.1)).Nodup := by
  rw [OrderedMap.insert_keys]
  split
  · exact distinct
  next absent =>
    rw [List.nodup_append]
    exact ⟨distinct, by simp, fun key member last inside same =>
      absent (by rw [← List.mem_singleton.mp inside, ← same]; exact member)⟩

theorem insert_tidy (tidy : graph.Tidy) (owner : Key) {content : List Key} (busy : content ≠ []) :
    (⟨OrderedMap.insert graph.edges owner content⟩ : WaitGraph).Tidy := by
  have distinct := insert_distinct tidy.distinct owner content
  refine ⟨distinct, fun item member => ?_⟩
  by_cases same : item.1 = owner
  · have found : OrderedMap.get? _ item.1 = some item.2 := OrderedMap.get?_of_mem distinct member
    rw [same, OrderedMap.get?_insert_self] at found
    exact (Option.some.inj found) ▸ busy
  · have kept : item ∈ elsewhere graph.edges owner := by
      rw [← elsewhere_insert graph.edges owner content]
      exact mem_elsewhere.mpr ⟨member, same⟩
    exact tidy.busy item (mem_elsewhere.mp kept).1

theorem insert_bag (distinct : (graph.edges.map (·.1)).Nodup) (owner : Key) (content : List Key) :
    (⟨OrderedMap.insert graph.edges owner content⟩ : WaitGraph).bag =
      ↑(content.map (owner, ·)) + waits (elsewhere graph.edges owner) := by
  rw [bag_split (insert_distinct distinct owner content) owner, elsewhere_insert]
  simp [targets, OrderedMap.get?_insert_self]

theorem mem_bag (distinct : (graph.edges.map (·.1)).Nodup) :
    (owner, target) ∈ graph.bag ↔ graph.Edge owner target := by
  rw [bag_split distinct owner, Multiset.mem_add]
  have apart : (owner, target) ∉ waits (elsewhere graph.edges owner) := by
    simp only [waits, Multiset.mem_coe, List.mem_flatMap, mem_elsewhere, List.mem_map]
    rintro ⟨item, ⟨_, different⟩, _, _, same⟩
    exact different (congrArg Prod.fst same)
  simp [apart, Edge]

/-- Fewer edges make no new cycle. -/
theorem Acyclic.mono (acyclic : graph.Acyclic)
    (fewer : ∀ first second, other.Edge first second → graph.Edge first second) : other.Acyclic :=
  fun key cycle => acyclic key (Relation.TransGen.mono fewer _ _ cycle)

/-- The chain that is told when a wait is refused: from the one that would wait to what it would wait
for, and from there along waits back to it. -/
structure Closes (graph : WaitGraph) (owner target : Key) (chain : List Key) : Prop where
  begins : ∃ rest, chain = owner :: target :: rest
  ends : chain.getLast? = some owner
  linked : chain.tail.IsChain graph.Edge
  simple : chain.tail.Nodup

theorem add_error {chain : List Key} (refused : graph.add owner target = .error chain) :
    graph.Closes owner target chain := by
  unfold add at refused
  split at refused
  next same =>
    cases refused
    exact ⟨⟨[], rfl⟩, by simp [same], List.isChain_singleton _, by simp⟩
  next different =>
    split at refused
    next path found =>
      cases refused
      obtain ⟨first, last, linked, simple⟩ := path?_some found
      cases path with
      | nil => cases first
      | cons head rest =>
        cases Option.some.inj first
        exact ⟨⟨rest, rfl⟩, by rw [List.getLast?_cons_cons]; exact last, linked, simple⟩
    next => cases refused

/-- A wait that is accepted leads nowhere from where it could be reached. -/
theorem add_ok (accepted : graph.add owner target = .ok other) :
    other = ⟨OrderedMap.insert graph.edges owner (graph.targets owner ++ [target])⟩ ∧
      ¬ Relation.ReflTransGen graph.Edge target owner := by
  unfold add at accepted
  split at accepted
  next => cases accepted
  next different =>
    split at accepted
    next => cases accepted
    next missing =>
      cases accepted
      exact ⟨rfl, path?_none missing⟩

theorem add_distinct (distinct : (graph.edges.map (·.1)).Nodup)
    (accepted : graph.add owner target = .ok other) :
    (other.edges.map (·.1)).Nodup := by
  rw [(add_ok accepted).1]
  exact insert_distinct distinct _ _

theorem add_tidy (tidy : graph.Tidy) (accepted : graph.add owner target = .ok other) : other.Tidy := by
  rw [(add_ok accepted).1]
  exact insert_tidy tidy owner (by simp)

/-- A wait that is accepted is one more edge. -/
theorem add_bag (distinct : (graph.edges.map (·.1)).Nodup)
    (accepted : graph.add owner target = .ok other) :
    other.bag = (owner, target) ::ₘ graph.bag := by
  rw [(add_ok accepted).1, insert_bag distinct owner, bag_split distinct owner, List.map_append,
    ← Multiset.coe_add]
  simp only [List.map_cons, List.map_nil, Multiset.coe_singleton]
  rw [add_right_comm, ← Multiset.singleton_add, add_comm]

theorem acyclic_of_edge (acyclic : graph.Acyclic)
    (edges : ∀ first second, other.Edge first second →
      graph.Edge first second ∨ first = owner ∧ second = target)
    (apart : ¬ Relation.ReflTransGen graph.Edge target owner) : other.Acyclic := by
  -- a way in the larger graph stays in the smaller one or uses the new edge
  have ways : ∀ first second, Relation.TransGen other.Edge first second →
      Relation.TransGen graph.Edge first second ∨
        Relation.ReflTransGen graph.Edge first owner ∧
          Relation.ReflTransGen graph.Edge target second := by
    intro first second way
    induction way with
    | single edge =>
      rcases edges _ _ edge with old | ⟨rfl, rfl⟩
      · exact .inl (.single old)
      · exact .inr ⟨.refl, .refl⟩
    | tail _ edge ih =>
      rcases edges _ _ edge with old | ⟨rfl, rfl⟩
      · rcases ih with inside | ⟨before, after⟩
        · exact .inl (inside.tail old)
        · exact .inr ⟨before, after.tail old⟩
      · rcases ih with inside | ⟨before, after⟩
        · exact .inr ⟨inside.to_reflTransGen, .refl⟩
        · exact .inr ⟨before, .refl⟩
  intro key cycle
  rcases ways key key cycle with inside | ⟨before, after⟩
  · exact acyclic key inside
  · exact apart (after.trans before)

/-- Accepting a wait closes no cycle. -/
theorem add_acyclic (distinct : (graph.edges.map (·.1)).Nodup) (acyclic : graph.Acyclic)
    (accepted : graph.add owner target = .ok other) : other.Acyclic := by
  refine acyclic_of_edge acyclic (fun first second edge => ?_) (add_ok accepted).2
  rw [← mem_bag (add_distinct distinct accepted), add_bag distinct accepted, Multiset.mem_cons,
    Prod.mk.injEq, mem_bag distinct] at edge
  exact edge.symm

theorem swapRemove_perm {targets : List Key} (member : target ∈ targets) :
    targets.Perm (target :: swapRemove targets target) := by
  obtain ⟨before, after, rfl, fresh⟩ := List.eq_append_cons_of_mem member
  have position : (before ++ target :: after).idxOf? target = some before.length := by
    rw [List.idxOf?, List.findIdx?_append]
    have missing : before.findIdx? (· == target) = none := by
      rw [List.findIdx?_eq_none_iff]
      intro key inside
      simpa using fun same : key = target => fresh (same ▸ inside)
    simp [missing, List.findIdx?_cons]
  simp only [swapRemove, position]
  rcases List.eq_nil_or_concat after with rfl | ⟨middle, last, rfl⟩
  · simp
  · have last_moves : ((before ++ target :: middle.concat last).set before.length last).dropLast =
        before ++ last :: middle := by
      rw [List.set_append_right _ _ (Nat.le_refl _), Nat.sub_self, List.set_cons_zero,
        List.concat_eq_append, ← List.cons_append, ← List.append_assoc, List.dropLast_concat]
    have final : (before ++ target :: middle.concat last).getLast?.getD target = last := by
      rw [List.concat_eq_append, ← List.cons_append, ← List.append_assoc, List.getLast?_concat]
      rfl
    rw [final, last_moves, List.concat_eq_append]
    have moved : (before ++ (middle ++ [last])).Perm (before ++ last :: middle) :=
      (List.perm_append_singleton last middle).append_left before
    exact List.perm_middle.trans (moved.cons target)

theorem remove_of_mem (present : target ∈ graph.targets owner) :
    graph.remove owner target = match swapRemove (graph.targets owner) target with
      | [] => ⟨elsewhere graph.edges owner⟩
      | remaining => ⟨OrderedMap.insert graph.edges owner remaining⟩ := by
  have known : graph.edges.any (fun item => item.1 = owner) := by
    rw [List.any_eq_true]
    by_contra absent
    rw [targets_of_not_owner graph owner fun ⟨item, member, same⟩ =>
      absent ⟨item, member, by simpa using same⟩] at present
    simp at present
  rw [remove, if_pos known]
  rfl

/-- Removing a wait that is there takes one edge out. -/
theorem remove_spec (distinct : (graph.edges.map (·.1)).Nodup) (present : (owner, target) ∈ graph.bag) :
    ((graph.remove owner target).edges.map (·.1)).Nodup ∧
      graph.bag = (owner, target) ::ₘ (graph.remove owner target).bag := by
  have edge : target ∈ graph.targets owner := (mem_bag distinct).mp present
  have split := bag_split distinct owner
  have taken : (↑((graph.targets owner).map (owner, ·)) : Multiset (Key × Key)) =
      (owner, target) ::ₘ ↑((swapRemove (graph.targets owner) target).map (owner, ·)) :=
    Multiset.coe_eq_coe.mpr ((swapRemove_perm edge).map _)
  rw [remove_of_mem edge]
  split
  next empty =>
    refine ⟨(List.filter_sublist.map _).nodup distinct, ?_⟩
    rw [split, taken, empty]
    exact Multiset.cons_add _ _ _ |>.trans (congrArg _ (Multiset.zero_add _))
  next remaining busy =>
    refine ⟨insert_distinct distinct _ _, ?_⟩
    rw [insert_bag distinct owner, split, taken, Multiset.cons_add]

theorem remove_tidy (tidy : graph.Tidy) (present : (owner, target) ∈ graph.bag) :
    (graph.remove owner target).Tidy := by
  rw [remove_of_mem ((mem_bag tidy.distinct).mp present)]
  split
  next =>
    exact ⟨(List.filter_sublist.map _).nodup tidy.distinct, fun item member =>
      tidy.busy item (mem_elsewhere.mp member).1⟩
  next remaining busy => exact insert_tidy tidy owner fun empty => busy empty

theorem remove_acyclic (distinct : (graph.edges.map (·.1)).Nodup) (acyclic : graph.Acyclic)
    (present : (owner, target) ∈ graph.bag) : (graph.remove owner target).Acyclic := by
  obtain ⟨left, edges⟩ := remove_spec distinct present
  refine acyclic.mono fun first second edge => ?_
  rw [← mem_bag distinct, edges]
  exact Multiset.mem_cons_of_mem ((mem_bag left).mpr edge)

end Blueprint.WaitGraph
