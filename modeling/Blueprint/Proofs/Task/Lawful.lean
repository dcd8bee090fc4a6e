import Blueprint.Proofs.Contents
import Blueprint.Proofs.Task.Stakes
import Blueprint.Proofs.WaitGraph.Edges
/-! Every stake of a task stands for a reference in the tree of the entry on whose behalf it is held, or
in the tree where the resolution began. A cycle of waits is therefore a cycle of references. -/

namespace Blueprint

namespace Contents

variable {contents more : Contents}

/-- A key that can be reached from some keys by following references. -/
def Reaches (contents : Contents) (roots : List Key) (key : Key) : Prop :=
  ∃ root ∈ roots, Relation.ReflTransGen contents.Refers root key

theorem Reaches.mono (wider : contents.Extends more) {roots : List Key} {key : Key}
    (reached : contents.Reaches roots key) : more.Reaches roots key := by
  obtain ⟨root, member, way⟩ := reached
  exact ⟨root, member, Relation.ReflTransGen.mono (fun _ _ refers => wider.refers refers) _ _ way⟩

/-- A chain of references that comes back to where it began and meets no other entry twice. -/
structure Cycle (contents : Contents) (chain : List Key) : Prop where
  long : 2 ≤ chain.length
  closed : chain.head? = chain.getLast?
  simple : chain.tail.Nodup
  linked : chain.IsChain contents.Refers

theorem Cycle.mono (wider : contents.Extends more) {chain : List Key} (cycle : contents.Cycle chain) :
    more.Cycle chain :=
  { cycle with linked := cycle.linked.imp fun _ _ refers => wider.refers refers }

/-- The chain that is told when a wait is refused is a cycle of references if all waits are. -/
theorem cycle_of_closes {graph : WaitGraph} {owner target : Key} {chain : List Key}
    (closes : graph.Closes owner target chain) (first : contents.Refers owner target)
    (edges : ∀ other next, graph.Edge other next → contents.Refers other next) :
    contents.Cycle chain := by
  obtain ⟨rest, rfl⟩ := closes.begins
  refine ⟨by simp, closes.ends.symm ▸ rfl, closes.simple, List.isChain_cons_cons.mpr ⟨first, ?_⟩⟩
  exact closes.linked.imp edges

theorem chain_reaches {relation : Key → Key → Prop} {first : Key} {rest : List Key}
    (linked : (first :: rest).IsChain relation) (key : Key) (member : key ∈ rest) :
    Relation.TransGen relation first key := by
  induction rest generalizing first with
  | nil => cases member
  | cons next rest ih =>
    rw [List.isChain_cons_cons] at linked
    rcases List.mem_cons.mp member with rfl | later
    · exact .single linked.1
    · exact .head linked.1 (ih linked.2 later)

theorem chain_ends {relation : Key → Key → Prop} {rest : List Key} {last : Key}
    (linked : rest.IsChain relation) (ends : rest.getLast? = some last) (key : Key) (member : key ∈ rest) :
    Relation.ReflTransGen relation key last := by
  induction rest generalizing key with
  | nil => cases member
  | cons next rest ih =>
    cases rest with
    | nil =>
      have only : next = last := by simpa using ends
      rw [List.mem_singleton.mp member, only]
    | cons second rest =>
      rw [List.isChain_cons_cons] at linked
      rw [List.getLast?_cons_cons] at ends
      rcases List.mem_cons.mp member with rfl | later
      · exact .head linked.1 (ih linked.2 ends second List.mem_cons_self)
      · exact ih linked.2 ends key later

/-- Every entry on a cycle refers back to itself. -/
theorem Cycle.returns {chain : List Key} (cycle : contents.Cycle chain) {key : Key} (member : key ∈ chain) :
    Relation.TransGen contents.Refers key key := by
  obtain ⟨first, second, rest, rfl⟩ : ∃ first second rest, chain = first :: second :: rest := by
    match chain, cycle.long with
    | first :: second :: rest, _ => exact ⟨first, second, rest, rfl⟩
  have ends : (second :: rest).getLast? = some first := by
    rw [← List.getLast?_cons_cons (a := first)]
    exact cycle.closed.symm
  have inside : ∀ other ∈ second :: rest, Relation.TransGen contents.Refers other other := fun other later =>
    Relation.TransGen.trans_right
      (chain_ends (List.isChain_cons_cons.mp cycle.linked).2 ends other later)
      (chain_reaches cycle.linked other later)
  rcases List.mem_cons.mp member with rfl | later
  · exact inside key (List.mem_of_getLast? ends)
  · exact inside key later

theorem Cycle.valueOf {chain : List Key} (cycle : contents.Cycle chain) {key : Key} (member : key ∈ chain) :
    contents.valueOf [] key = none :=
  valueOf_of_cycle (cycle.returns member)

/-- Every entry on a cycle is deferred. -/
theorem Cycle.node? {chain : List Key} (cycle : contents.Cycle chain) {key : Key} (member : key ∈ chain) :
    ∃ node, contents.node? key = some node := by
  obtain ⟨next, ⟨node, found, _⟩, _⟩ := Relation.TransGen.head'_iff.mp (cycle.returns member)
  exact ⟨node, found⟩

end Contents

/-- What a stake of a task says about what was registered, if the task began with some references. -/
structure Stake.Lawful (contents : Contents) (roots : List Key) (owner : Option Key) (stake : Stake) :
    Prop where
  anchored : stake.anchor.owner = owner
  outer : owner = none → stake.key ∈ roots
  inner : ∀ first, owner = some first → contents.Refers first stake.key ∧
    stake.anchor.reference = some first.text ∧ contents.Reaches roots first
  waits : ∀ fetch ticket, stake = .waiting fetch ticket →
    contents.origin? fetch.key = some (.deferred fetch.payload)
  turns : ∀ fetch, stake = .turn fetch → contents.origin? fetch.key = some (.deferred fetch.payload)

namespace Stake.Lawful

variable {contents more : Contents} {roots : List Key} {owner : Option Key} {stake : Stake}

theorem mono (wider : contents.Extends more) (lawful : stake.Lawful contents roots owner) :
    stake.Lawful more roots owner where
  anchored := lawful.anchored
  outer := lawful.outer
  inner first made :=
    have known := lawful.inner first made
    ⟨wider.refers known.1, known.2.1, known.2.2.mono wider⟩
  waits fetch ticket same := wider _ _ (lawful.waits fetch ticket same)
  turns fetch same := wider _ _ (lawful.turns fetch same)

/-- A fetch of what is referred to may stand in a queue. -/
theorem queue {fetch : Fetch} (pending : (Stake.pending fetch.key fetch.scope.anchor).Lawful contents roots owner)
    (registered : contents.origin? fetch.key = some (.deferred fetch.payload)) (ticket : Nat) :
    (Stake.waiting fetch ticket).Lawful contents roots owner where
  anchored := pending.anchored
  outer := pending.outer
  inner := pending.inner
  waits := fun _ _ same => by cases same; exact registered
  turns := fun _ same => by cases same

/-- Whoever may stand in a queue may be given the turn. -/
theorem turn {fetch : Fetch} {ticket : Nat} (waiting : (Stake.waiting fetch ticket).Lawful contents roots owner) :
    (Stake.turn fetch).Lawful contents roots owner where
  anchored := waiting.anchored
  outer := waiting.outer
  inner := waiting.inner
  waits := fun _ _ same => by cases same
  turns := fun _ same => by cases same; exact waiting.waits fetch ticket rfl

theorem refers (lawful : stake.Lawful contents roots owner) {first : Key} (made : owner = some first) :
    contents.Refers first stake.key :=
  (lawful.inner first made).1

/-- Whatever a task has at stake can be reached from where it began. -/
theorem reached (lawful : stake.Lawful contents roots owner) : contents.Reaches roots stake.key := by
  cases owner with
  | none => exact ⟨stake.key, lawful.outer rfl, .refl⟩
  | some first =>
    obtain ⟨refers, _, root, member, way⟩ := lawful.inner first rfl
    exact ⟨root, member, way.tail refers⟩

/-- The references of a deferred node are at stake for its entry once that is initialized. -/
theorem pending_inside {fetch : Fetch} {node : Node} {key : Key} (reached : contents.Reaches roots fetch.key)
    (found : contents.node? fetch.key = some node) (member : key ∈ node.references) :
    (Stake.pending key fetch.inner.anchor).Lawful contents roots (some fetch.key) where
  anchored := rfl
  outer same := by cases same
  inner first same := by
    cases same
    exact ⟨⟨node, found, member⟩, by simp [Stake.anchor, Fetch.inner], reached⟩
  waits _ _ same := by cases same
  turns _ same := by cases same

end Stake.Lawful

/-- All stakes are lawful. -/
def Stakes.Lawful (contents : Contents) (roots : List Key) (stakes : Stakes) : Prop :=
  ∀ stake ∈ stakes, stake.2.Lawful contents roots stake.1

namespace Stakes

variable {contents more : Contents} {roots : List Key} {first second : Stakes}

theorem lawful_add : Lawful contents roots (first + second) ↔
    Lawful contents roots first ∧ Lawful contents roots second := by
  simp only [Lawful, Multiset.mem_add, or_imp, forall_and]

theorem Lawful.mono (wider : contents.Extends more) (lawful : Lawful contents roots first) :
    Lawful more roots first :=
  fun stake member => (lawful stake member).mono wider

end Stakes

/-- An error that tells a cycle tells one of references that can be reached from where the resolution
began, and it arose at a reference to its first entry. -/
def ResolveError.Justified (contents : Contents) (roots : List Key) : ResolveError → Prop
  | referenceCycle chain path => ∃ keys, contents.Cycle keys ∧ chain = keys.map Key.text ∧
    path.lastReference? = chain.head? ∧ ∀ key ∈ keys, contents.Reaches roots key
  | _ => True

theorem ResolveError.Justified.mono {contents more : Contents} (wider : contents.Extends more)
    {roots : List Key} {error : ResolveError} (justified : error.Justified contents roots) :
    error.Justified more roots := by
  cases error with
  | referenceCycle chain path =>
    obtain ⟨keys, cycle, same, last, reached⟩ := justified
    exact ⟨keys, cycle.mono wider, same, last, fun key member => (reached key member).mono wider⟩
  | _ => trivial

end Blueprint
