import Mathlib.Data.List.Chain
import Mathlib.Data.List.Nodup
import Mathlib.Logic.Relation
import Blueprint.Registry.WaitGraph
/-! The depth-first search of the wait graph. The stack holds whole paths and an entry is marked when
its path is taken from the stack, so stale paths to marked entries may pile up. What makes the
search complete is that every edge out of a marked entry leads to a marked entry or to the end of
a path on the stack. -/

namespace Blueprint.WaitGraph

variable {graph : WaitGraph} {goal start : Key}

/-- The first entry waits for the second one. -/
def Edge (graph : WaitGraph) (owner target : Key) : Prop :=
  target ∈ graph.targets owner

/-- A path on the stack: a trail from the start, last entry first, whose earlier entries have been
marked. -/
structure Trail (graph : WaitGraph) (start : Key) (visited : List Key) (path : List Key) : Prop where
  begins : path.getLast? = some start
  linked : path.IsChain fun later earlier => graph.Edge earlier later
  marked : ∀ key ∈ path.tail, key ∈ visited
  simple : path.tail.Nodup

/-- All edges from the marked entries have been followed or are about to be. -/
def Explored (graph : WaitGraph) (visited : List Key) (stack : List (List Key)) : Prop :=
  ∀ key ∈ visited, ∀ next, graph.Edge key next → next ∈ visited ∨ ∃ path ∈ stack, path.head? = some next

theorem Trail.ne_nil {visited path : List Key} (trail : graph.Trail start visited path) : path ≠ [] := by
  rintro rfl
  cases trail.begins

theorem Trail.mono {visited wider path : List Key} (trail : graph.Trail start visited path)
    (more : ∀ key ∈ visited, key ∈ wider) : graph.Trail start wider path :=
  ⟨trail.begins, trail.linked, fun key member => more key (trail.marked key member), trail.simple⟩

theorem extensions_trail {visited earlier : List Key} {last : Key}
    (trail : graph.Trail start visited (last :: earlier)) (fresh : last ∉ visited) :
    ∀ path ∈ graph.extensions (last :: visited) last (last :: earlier),
      graph.Trail start (last :: visited) path := by
  intro path member
  obtain ⟨next, inside, rfl⟩ := List.mem_map.mp member
  have target := (List.mem_filter.mp (List.mem_reverse.mp inside)).1
  refine ⟨?_, ?_, ?_, ?_⟩
  · rw [List.getLast?_cons_cons]
    exact trail.begins
  · exact List.isChain_cons_cons.mpr ⟨target, trail.linked⟩
  · intro key inside
    rcases List.mem_cons.mp inside with rfl | before
    · exact List.mem_cons_self
    · exact List.mem_cons_of_mem _ (trail.marked key before)
  · exact List.nodup_cons.mpr ⟨fun before => fresh (trail.marked last before), trail.simple⟩

theorem explored_extensions {visited earlier : List Key} {last : Key} {rest : List (List Key)}
    (explored : graph.Explored visited ((last :: earlier) :: rest)) :
    graph.Explored (last :: visited)
      (graph.extensions (last :: visited) last (last :: earlier) ++ rest) := by
  intro key member next edge
  by_cases known : next ∈ last :: visited
  · exact .inl known
  right
  rcases List.mem_cons.mp member with rfl | before
  · refine ⟨next :: key :: earlier, List.mem_append_left _ ?_, rfl⟩
    exact List.mem_map.mpr ⟨next, List.mem_reverse.mpr (List.mem_filter.mpr ⟨edge, by simpa using known⟩), rfl⟩
  · rcases explored key before next edge with marked | ⟨path, onStack, ends⟩
    · exact absurd (List.mem_cons_of_mem _ marked) known
    · rcases List.mem_cons.mp onStack with rfl | later
      · exact absurd (List.mem_cons.mpr (.inl (Option.some.inj ends).symm)) known
      · exact ⟨path, List.mem_append_right _ later, ends⟩

/-- A search that goes on from the last entry of a path still holds nothing but trails. -/
theorem trails_extensions {visited : List Key} {last : Key} {earlier : List Key} {rest : List (List Key)}
    (trails : ∀ path ∈ (last :: earlier) :: rest, graph.Trail start visited path) (fresh : last ∉ visited) :
    ∀ path ∈ graph.extensions (last :: visited) last (last :: earlier) ++ rest,
      graph.Trail start (last :: visited) path := by
  intro path member
  rcases List.mem_append.mp member with new | old
  · exact extensions_trail (trails _ List.mem_cons_self) fresh path new
  · exact (trails path (List.mem_cons_of_mem _ old)).mono fun key inside => List.mem_cons_of_mem _ inside

/-- A found path leads along edges from the start to the goal and meets no entry twice. -/
theorem search_some {visited : List Key} {stack : List (List Key)} {found : List Key}
    (trails : ∀ path ∈ stack, graph.Trail start visited path) (open' : goal ∉ visited)
    (result : graph.search goal visited stack = some found) :
    found.head? = some start ∧ found.getLast? = some goal ∧ found.IsChain graph.Edge ∧ found.Nodup := by
  fun_induction WaitGraph.search graph goal visited stack with
  | case1 => cases result
  | case2 => cases result
  | case3 visited earlier rest =>
    cases result
    have trail := trails _ List.mem_cons_self
    refine ⟨by rw [List.head?_reverse]; exact trail.begins, by simp, ?_, ?_⟩
    · exact List.isChain_reverse.mpr trail.linked
    · refine List.nodup_reverse.mpr (List.nodup_cons.mpr ?_)
      exact ⟨fun before => open' (trail.marked _ before), trail.simple⟩
  | case4 visited last earlier rest other marked ih =>
    exact ih (fun path member => trails path (List.mem_cons_of_mem _ member)) open' result
  | case5 visited last earlier rest other fresh ih =>
    exact ih (trails_extensions trails fresh) (by simp [Ne.symm other, open']) result

/-- A search without result has seen a set of entries that no edge leaves and the goal is not in. -/
theorem search_none {visited : List Key} {stack : List (List Key)}
    (trails : ∀ path ∈ stack, graph.Trail start visited path) (open' : goal ∉ visited)
    (explored : graph.Explored visited stack) (result : graph.search goal visited stack = none) :
    ∃ closed : List Key, goal ∉ closed ∧ (∀ key ∈ visited, key ∈ closed) ∧
      (∀ path ∈ stack, ∀ key, path.head? = some key → key ∈ closed) ∧
      ∀ key ∈ closed, ∀ next, graph.Edge key next → next ∈ closed := by
  fun_induction WaitGraph.search graph goal visited stack with
  | case1 visited =>
    refine ⟨visited, open', fun _ member => member, by simp, ?_⟩
    intro key member next edge
    rcases explored key member next edge with marked | ⟨path, onStack, _⟩
    · exact marked
    · simp at onStack
  | case2 => exact absurd rfl (trails _ List.mem_cons_self).ne_nil
  | case3 => cases result
  | case4 visited last earlier rest other marked ih =>
    have still : graph.Explored visited rest := by
      intro key member next edge
      rcases explored key member next edge with known | ⟨path, onStack, ends⟩
      · exact .inl known
      · rcases List.mem_cons.mp onStack with rfl | later
        · exact .inl ((Option.some.inj ends) ▸ marked)
        · exact .inr ⟨path, later, ends⟩
    obtain ⟨closed, outside, wider, heads, edges⟩ :=
      ih (fun path member => trails path (List.mem_cons_of_mem _ member)) open' still result
    refine ⟨closed, outside, wider, ?_, edges⟩
    intro path member key ends
    rcases List.mem_cons.mp member with rfl | later
    · exact wider _ ((Option.some.inj ends) ▸ marked)
    · exact heads path later key ends
  | case5 visited last earlier rest other fresh ih =>
    obtain ⟨closed, outside, wider, heads, edges⟩ :=
      ih (trails_extensions trails fresh) (by simp [Ne.symm other, open']) (explored_extensions explored) result
    refine ⟨closed, outside, fun key member => wider key (List.mem_cons_of_mem _ member), ?_, edges⟩
    intro path member key ends
    rcases List.mem_cons.mp member with rfl | later
    · exact wider _ ((Option.some.inj ends) ▸ List.mem_cons_self)
    · exact heads path (List.mem_append_right _ later) key ends

/-- The search begins with the path that has not left the start. -/
theorem start_trail : ∀ path ∈ [[start]], graph.Trail start [] path := by
  intro path member
  rw [List.mem_singleton.mp member]
  exact ⟨rfl, List.isChain_singleton _, by simp, by simp⟩

theorem path?_some {path : List Key} (found : graph.path? start goal = some path) :
    path.head? = some start ∧ path.getLast? = some goal ∧ path.IsChain graph.Edge ∧ path.Nodup :=
  search_some start_trail (by simp) found

theorem path?_none (missing : graph.path? start goal = none) :
    ¬ Relation.ReflTransGen graph.Edge start goal := by
  obtain ⟨closed, outside, _, heads, edges⟩ :=
    search_none start_trail (by simp) (fun key member => by simp at member) missing
  have inside : ∀ key, Relation.ReflTransGen graph.Edge start key → key ∈ closed := by
    intro key reaches
    induction reaches with
    | refl => exact heads [start] (by simp) start rfl
    | tail _ edge ih => exact edges _ ih _ edge
  exact fun reaches => outside (inside goal reaches)

/-- The search finds a way exactly if there is one. -/
theorem path?_isSome_iff :
    (graph.path? start goal).isSome ↔ Relation.ReflTransGen graph.Edge start goal := by
  constructor
  · intro found
    obtain ⟨path, same⟩ := Option.isSome_iff_exists.mp found
    obtain ⟨first, last, linked, _⟩ := path?_some same
    cases path with
    | nil => cases first
    | cons head rest =>
      cases Option.some.inj first
      refine List.relationReflTransGen_of_exists_isChain_cons rest linked ?_
      rw [List.getLast?_eq_some_getLast (List.cons_ne_nil _ _)] at last
      exact Option.some.inj last
  · intro reaches
    cases missing : graph.path? start goal with
    | none => exact absurd reaches (path?_none missing)
    | some path => rfl

end Blueprint.WaitGraph
