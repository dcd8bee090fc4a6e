import Blueprint.Key
import Blueprint.OrderedMap
/-!
Who waits for whom. While a deferred entry is being initialized, every fetch it makes of another
deferred entry adds an edge from the one to the other. An edge that would close a cycle is refused,
because the entries on it could only wait for each other. Edges may be repeated.
-/

namespace Blueprint

/-- For every waiting entry the entries it waits for. -/
structure WaitGraph where
  edges : List (Key × List Key)
  deriving DecidableEq, Repr

namespace WaitGraph

def empty : WaitGraph := ⟨[]⟩

/-- What an entry waits for, oldest first. -/
def targets (graph : WaitGraph) (owner : Key) : List Key :=
  (OrderedMap.get? graph.edges owner).getD []

/-- The entries that wait and are not in a list. -/
def ownersOutside (graph : WaitGraph) (visited : List Key) : List (Key × List Key) :=
  graph.edges.filter fun edge => edge.1 ∉ visited

theorem ownersOutside_cons_lt (graph : WaitGraph) (visited : List Key) (key : Key)
    (fresh : key ∉ visited) (owner : ∃ edge ∈ graph.edges, edge.1 = key) :
    (graph.ownersOutside (key :: visited)).length < (graph.ownersOutside visited).length := by
  obtain ⟨edge, member, rfl⟩ := owner
  have narrower : graph.ownersOutside (edge.1 :: visited) =
      (graph.ownersOutside visited).filter fun other => other.1 ≠ edge.1 := by
    simp only [ownersOutside, List.filter_filter]
    congr 1
    funext other
    simp [not_or]
  rw [narrower]
  have inside : edge ∈ graph.ownersOutside visited := by simp [ownersOutside, member, fresh]
  exact List.length_filter_lt_length_iff_exists.2 ⟨edge, inside, by simp⟩

theorem ownersOutside_cons_of_not_owner (graph : WaitGraph) (visited : List Key) (key : Key)
    (idle : ¬ ∃ edge ∈ graph.edges, edge.1 = key) :
    graph.ownersOutside (key :: visited) = graph.ownersOutside visited := by
  apply List.filter_congr
  intro edge member
  have other : edge.1 ≠ key := fun same => idle ⟨edge, member, same⟩
  simp [other]

theorem targets_of_not_owner (graph : WaitGraph) (key : Key)
    (idle : ¬ ∃ edge ∈ graph.edges, edge.1 = key) : graph.targets key = [] := by
  have none : graph.edges.find? (fun edge => edge.1 = key) = none := by
    simp only [List.find?_eq_none, decide_eq_true_eq]
    exact fun edge member same => idle ⟨edge, member, same⟩
  simp [targets, OrderedMap.get?, none]

/-- The paths that lengthen a path, whose last entry comes first, by one edge to an entry not yet
visited; the newest edge leads. -/
def extensions (graph : WaitGraph) (visited : List Key) (last : Key) (path : List Key) :
    List (List Key) :=
  ((graph.targets last).filter (· ∉ visited)).reverse.map (· :: path)

/-- Depth-first search over a stack of paths, each with its last entry first. -/
def search (graph : WaitGraph) (goal : Key) (visited : List Key) (stack : List (List Key)) :
    Option (List Key) :=
  match stack with
  | [] => none
  | [] :: _ => none
  | (last :: earlier) :: rest =>
    if last = goal then some (last :: earlier).reverse
    else if last ∈ visited then search graph goal visited rest
    else
      search graph goal (last :: visited)
        (graph.extensions (last :: visited) last (last :: earlier) ++ rest)
termination_by ((graph.ownersOutside visited).length, stack.length)
decreasing_by
  · exact Prod.Lex.right _ (by simp)
  · rename_i fresh
    by_cases owner : ∃ edge ∈ graph.edges, edge.1 = last
    · exact Prod.Lex.left _ _ (ownersOutside_cons_lt graph visited last fresh owner)
    · rw [ownersOutside_cons_of_not_owner graph visited last owner]
      exact Prod.Lex.right _ (by simp [extensions, targets_of_not_owner graph last owner])

/-- Entries from one to another along edges, both included, if there is a way. -/
def path? (graph : WaitGraph) (start goal : Key) : Option (List Key) :=
  graph.search goal [] [[start]]

/-- Record that one entry waits for another, or tell the cycle this would close: a chain that
starts and ends with the entry that would wait. -/
def add (graph : WaitGraph) (owner target : Key) : Except (List Key) WaitGraph :=
  if owner = target then .error [owner, target]
  else
    match graph.path? target owner with
    | some path => .error (owner :: path)
    | none => .ok ⟨OrderedMap.insert graph.edges owner (graph.targets owner ++ [target])⟩

/-- Take out the first occurrence of a target; the last target moves to its place. -/
def swapRemove (targets : List Key) (target : Key) : List Key :=
  match targets.idxOf? target with
  | none => targets
  | some position => (targets.set position (targets.getLast?.getD target)).dropLast

/-- Forget one wait. An entry that waits for nothing more is not kept. -/
def remove (graph : WaitGraph) (owner target : Key) : WaitGraph :=
  if graph.edges.any (fun edge => edge.1 = owner) then
    match swapRemove (graph.targets owner) target with
    | [] => ⟨graph.edges.filter fun edge => edge.1 ≠ owner⟩
    | remaining => ⟨OrderedMap.insert graph.edges owner remaining⟩
  else graph

/-- How many entries wait. -/
def waiting (graph : WaitGraph) : Nat :=
  graph.edges.length

end WaitGraph

end Blueprint
