import Mathlib.Data.Nat.Find
import Mathlib.Logic.Relation
import Blueprint.Proofs.Evaluation
import Blueprint.Registry
/-! What is registered, as it was registered, and what its keys mean. A key means its registered value,
or the value of its deferred node, in which references are given their meaning in the same way. A
key met again while it is being evaluated has no value. -/

namespace Blueprint

/-- What is put under a key: a value, or a payload from which the value is made later. -/
inductive Origin where
  | value (value : Value)
  | deferred (payload : Payload)

/-- The entry that is made of an origin. -/
def Origin.entry (key : Key) : Origin → Entry
  | .value known => .complete ⟨key.type, known⟩
  | .deferred payload => .deferred payload

/-- All that was registered, in order. -/
abbrev Contents := List (Key × Origin)

namespace Contents

variable {contents more : Contents}

def origin? (contents : Contents) (key : Key) : Option Origin :=
  OrderedMap.get? contents key

/-- The registered items whose keys are not in a list. -/
def unvisited (contents : Contents) (visiting : List Key) : List (Key × Origin) :=
  contents.filter fun item => item.1 ∉ visiting

theorem unvisited_cons_lt {visiting : List Key} {key : Key} {origin : Origin}
    (found : contents.origin? key = some origin) (fresh : key ∉ visiting) :
    (contents.unvisited (key :: visiting)).length < (contents.unvisited visiting).length := by
  have narrower : contents.unvisited (key :: visiting) =
      (contents.unvisited visiting).filter fun item => item.1 ≠ key := by
    simp only [unvisited, List.filter_filter]
    congr 1
    funext item
    simp [not_or]
  have inside : (key, origin) ∈ contents.unvisited visiting := by
    simp [unvisited, OrderedMap.mem_of_get? found, fresh]
  rw [narrower]
  exact List.length_filter_lt_length_iff_exists.2 ⟨_, inside, by simp⟩

/-- The value that sequential evaluation gives to a key while other keys are being evaluated. -/
def valueOf (contents : Contents) (visiting : List Key) (key : Key) : Option Value :=
  match _ : contents.origin? key with
  | none => none
  | some (.value value) => some value
  | some (.deferred (.text _)) => none
  | some (.deferred (.node type node)) =>
    if _ : type = key.type ∧ key ∉ visiting then
      node.evaluate fun reference => contents.valueOf (key :: visiting) reference
    else none
termination_by (contents.unvisited visiting).length
decreasing_by exact unvisited_cons_lt ‹_› (And.right ‹type = key.type ∧ key ∉ visiting›)

/-- The value that sequential evaluation gives to a node. -/
def evaluate (contents : Contents) (node : Node) : Option Value :=
  node.evaluate (contents.valueOf [])

/-- The node under a key that is deferred and can be resolved as a value of its type. -/
def node? (contents : Contents) (key : Key) : Option Node :=
  match contents.origin? key with
  | some (.deferred (.node type node)) => if type = key.type then some node else none
  | _ => none

theorem node?_eq_some_iff {key : Key} {node : Node} :
    contents.node? key = some node ↔ contents.origin? key = some (.deferred (.node key.type node)) := by
  unfold node?
  split
  next type inner origin =>
    rw [origin]
    constructor
    · intro found
      split at found
      next same => cases found; rw [same]
      next => cases found
    · intro same
      cases same
      exact if_pos rfl
  next other => exact ⟨nofun, fun found => absurd found (other _ _)⟩

/-- The node registered under the first key has a reference to the second one in its own tree. -/
def Refers (contents : Contents) (first second : Key) : Prop :=
  ∃ node, contents.node? first = some node ∧ second ∈ node.references

/-- The second contents hold all that the first ones hold. -/
def Extends (contents more : Contents) : Prop :=
  ∀ key origin, contents.origin? key = some origin → more.origin? key = some origin

theorem Extends.refl (contents : Contents) : contents.Extends contents := fun _ _ found => found

theorem Extends.trans {most : Contents} (first : contents.Extends more) (second : more.Extends most) :
    contents.Extends most :=
  fun key origin found => second key origin (first key origin found)

theorem extends_append (contents extra : Contents) : contents.Extends (contents ++ extra) := by
  intro key origin found
  rw [origin?, OrderedMap.get?_append, ← origin?, found]
  rfl

theorem Extends.node? (wider : contents.Extends more) {key : Key} {node : Node}
    (found : contents.node? key = some node) : more.node? key = some node := by
  unfold Contents.node? at found ⊢
  split at found
  next origin =>
    rw [wider _ _ origin]
    exact found
  next => cases found

theorem Extends.refers (wider : contents.Extends more) {first second : Key}
    (refers : contents.Refers first second) : more.Refers first second := by
  obtain ⟨node, found, member⟩ := refers
  exact ⟨node, wider.node? found, member⟩

theorem valueOf_of_value {visiting : List Key} {key : Key} {value : Value}
    (found : contents.origin? key = some (.value value)) :
    contents.valueOf visiting key = some value := by
  rw [valueOf]
  split <;> simp_all

theorem valueOf_of_absent {visiting : List Key} {key : Key} (absent : contents.origin? key = none) :
    contents.valueOf visiting key = none := by
  rw [valueOf]
  split <;> simp_all

theorem valueOf_of_node? {visiting : List Key} {key : Key} {node : Node}
    (found : contents.node? key = some node) :
    contents.valueOf visiting key =
      if key ∉ visiting then node.evaluate (contents.valueOf (key :: visiting)) else none := by
  unfold node? at found
  split at found
  next type inner origin =>
    split at found
    next same =>
      cases found
      rw [valueOf]
      split <;> simp_all
    next => cases found
  next => cases found

/-- A deferred entry without a node of its type has no value. -/
theorem valueOf_of_deferred {visiting : List Key} {key : Key} {payload : Payload}
    (found : contents.origin? key = some (.deferred payload)) (unusable : contents.node? key = none) :
    contents.valueOf visiting key = none := by
  unfold node? at unusable
  rw [found] at unusable
  rw [valueOf]
  split
  next => rfl
  next origin => rw [found] at origin; cases origin
  next => rfl
  next type inner origin =>
    rw [found] at origin
    cases origin
    have mismatch : type ≠ key.type := fun same => by simp [same] at unusable
    rw [dif_neg fun fits => mismatch fits.1]

/-- What a key has a value from. -/
theorem valueOf_cases {visiting : List Key} {key : Key} {value : Value}
    (found : contents.valueOf visiting key = some value) :
    contents.origin? key = some (.value value) ∨
      ∃ node, contents.node? key = some node ∧ key ∉ visiting ∧
        node.evaluate (contents.valueOf (key :: visiting)) = some value := by
  cases origin : contents.origin? key with
  | none => rw [valueOf_of_absent origin] at found; cases found
  | some item =>
    cases item with
    | value other => rw [valueOf_of_value origin] at found; cases found; exact .inl rfl
    | deferred payload =>
      cases usable : contents.node? key with
      | none => rw [valueOf_of_deferred origin usable] at found; cases found
      | some node =>
        rw [valueOf_of_node? usable] at found
        split at found
        next fresh => exact .inr ⟨node, rfl, fresh, found⟩
        next => cases found

/-- The meaning of keys when deferred nodes are followed to a bounded depth only. -/
def approximate (contents : Contents) : Nat → Key → Option Value
  | 0, _ => none
  | depth + 1, key =>
    match contents.origin? key with
    | some (.value value) => some value
    | _ => (contents.node? key).bind (Node.evaluate (contents.approximate depth))

theorem approximate_of_value {depth : Nat} {key : Key} {value : Value}
    (found : contents.origin? key = some (.value value)) :
    contents.approximate (depth + 1) key = some value := by
  rw [approximate, found]

theorem approximate_of_node? {depth : Nat} {key : Key} {node : Node}
    (found : contents.node? key = some node) :
    contents.approximate (depth + 1) key = node.evaluate (contents.approximate depth) := by
  rw [approximate]
  split
  next origin => simp [node?, origin] at found
  next => rw [found]; rfl

theorem approximate_cases {depth : Nat} {key : Key} {value : Value}
    (found : contents.approximate (depth + 1) key = some value) :
    contents.origin? key = some (.value value) ∨
      ∃ node, contents.node? key = some node ∧
        node.evaluate (contents.approximate depth) = some value := by
  rw [approximate] at found
  split at found
  next origin => cases found; exact .inl origin
  next => exact .inr (Option.bind_eq_some_iff.mp found)

/-- Following nodes deeper and having more contents can only give more values. -/
theorem approximate_mono (wider : contents.Extends more) {depth deeper : Nat} (le : depth ≤ deeper)
    (key : Key) : Below (contents.approximate depth key) (more.approximate deeper key) := by
  induction depth generalizing deeper key with
  | zero => exact none_below _
  | succ depth ih =>
    obtain ⟨lower, rfl⟩ : ∃ lower, deeper = lower + 1 := ⟨deeper - 1, by omega⟩
    intro value found
    rcases approximate_cases found with origin | ⟨node, usable, result⟩
    · exact approximate_of_value (wider _ _ origin)
    · rw [approximate_of_node? (wider.node? usable)]
      exact node.evaluate_mono (fun reference => ih (by omega) reference) value result

theorem valueOf_below_approximate (visiting : List Key) (depth : Nat)
    (enough : (contents.unvisited visiting).length < depth) (key : Key) :
    Below (contents.valueOf visiting key) (contents.approximate depth key) := by
  induction depth generalizing visiting key with
  | zero => omega
  | succ depth ih =>
    intro value found
    rcases valueOf_cases found with origin | ⟨node, usable, fresh, result⟩
    · exact approximate_of_value origin
    · rw [approximate_of_node? usable]
      have known : ∃ origin, contents.origin? key = some origin := by
        cases origin : contents.origin? key with
        | none => simp [node?, origin] at usable
        | some item => exact ⟨item, rfl⟩
      obtain ⟨origin, registered⟩ := known
      have shorter := unvisited_cons_lt registered fresh
      exact node.evaluate_mono (fun reference => ih (key :: visiting) (by omega) reference) value result

/-- A value found within a depth is found while keys are being evaluated that are not found within
that depth, because a shortest evaluation meets no key twice. -/
theorem approximate_below_valueOf (depth : Nat) (key : Key) (visiting : List Key)
    (deeper : ∀ other ∈ visiting, contents.approximate depth other = none) :
    Below (contents.approximate depth key) (contents.valueOf visiting key) := by
  induction depth using Nat.strongRecOn generalizing key visiting with
  | _ depth ih =>
    intro value found
    -- the least depth at which the key has a value
    obtain ⟨least, present, minimal⟩ : ∃ least, contents.approximate least key ≠ none ∧
        ∀ lower < least, contents.approximate lower key = none := by
      have exists_depth : ∃ least, contents.approximate least key ≠ none := ⟨depth, by simp [found]⟩
      classical
      exact ⟨Nat.find exists_depth, Nat.find_spec exists_depth,
        fun lower below => not_not.mp (Nat.find_min exists_depth below)⟩
    have bounded : least ≤ depth := by
      by_contra above
      have missing := minimal depth (by omega)
      rw [found] at missing
      cases missing
    obtain ⟨other, reached⟩ := Option.ne_none_iff_exists'.mp present
    have same : other = value := by
      have later := approximate_mono (Extends.refl contents) bounded key other reached
      rw [found] at later
      exact (Option.some.inj later).symm
    subst same
    cases least with
    | zero => cases reached
    | succ lower =>
      rcases approximate_cases reached with origin | ⟨node, usable, result⟩
      · exact valueOf_of_value origin
      · have fresh : key ∉ visiting := by
          intro member
          rw [deeper key member] at found
          cases found
        rw [valueOf_of_node? usable, if_pos fresh]
        refine node.evaluate_mono (fun reference => ih lower (by omega) reference _ ?_) other result
        intro earlier member
        rcases List.mem_cons.mp member with rfl | outside
        · exact minimal lower (by omega)
        · cases early : contents.approximate lower earlier with
          | none => rfl
          | some early' =>
            have late := approximate_mono (Extends.refl contents) (by omega : lower ≤ depth) earlier
              early' early
            rw [deeper earlier outside] at late
            cases late

/-- Sequential evaluation finds what some bounded depth finds. -/
theorem valueOf_eq_some_iff {key : Key} {value : Value} :
    contents.valueOf [] key = some value ↔ ∃ depth, contents.approximate depth key = some value :=
  ⟨fun found => ⟨_, valueOf_below_approximate [] _ (Nat.lt_succ_self _) key value found⟩,
    fun ⟨depth, found⟩ => approximate_below_valueOf depth key [] (by simp) value found⟩

/-- What is registered later takes no value away. -/
theorem Extends.valueOf (wider : contents.Extends more) (key : Key) :
    Below (contents.valueOf [] key) (more.valueOf [] key) := by
  intro value found
  obtain ⟨depth, reached⟩ := valueOf_eq_some_iff.mp found
  exact valueOf_eq_some_iff.mpr ⟨depth, approximate_mono wider (Nat.le_refl depth) key value reached⟩

/-- The meaning of a deferred key is the value of its node: nothing is lost by forgetting that the
key is being evaluated. -/
theorem valueOf_node {key : Key} {node : Node} (found : contents.node? key = some node) :
    contents.valueOf [] key = contents.evaluate node := by
  apply Option.ext
  intro value
  constructor
  · intro reached
    obtain ⟨depth, early⟩ := valueOf_eq_some_iff.mp reached
    cases depth with
    | zero => cases early
    | succ depth =>
      rw [approximate_of_node? found] at early
      exact node.evaluate_mono
        (fun reference => approximate_below_valueOf depth reference [] (by simp)) value early
  · intro reached
    have deep := node.evaluate_mono
      (fun reference => valueOf_below_approximate [] _ (Nat.lt_succ_self _) reference) value reached
    rw [← approximate_of_node? found] at deep
    exact valueOf_eq_some_iff.mpr ⟨_, deep⟩

/-- A chain of references that leads back to where it started gives no value to what is on it. -/
theorem valueOf_of_cycle {key : Key} (cycle : Relation.TransGen contents.Refers key key) :
    contents.valueOf [] key = none := by
  have shallow : ∀ depth, ∀ first second, Relation.TransGen contents.Refers first second →
      contents.approximate (depth + 1) first ≠ none → contents.approximate depth second ≠ none := by
    intro depth first second chain
    induction chain using Relation.TransGen.head_induction_on generalizing depth with
    | single refers =>
      intro present absent
      obtain ⟨node, found, member⟩ := refers
      rw [approximate_of_node? found, evaluate_strict.1 node _ member absent] at present
      exact present rfl
    | head refers rest ih =>
      intro present absent
      obtain ⟨node, found, member⟩ := refers
      rw [approximate_of_node? found] at present
      cases depth with
      | zero => exact present (evaluate_strict.1 node _ member rfl)
      | succ depth =>
        refine ih depth (fun missing => present (evaluate_strict.1 node _ member missing)) ?_
        cases early : contents.approximate depth second with
        | none => rfl
        | some value =>
          rw [approximate_mono (Extends.refl contents) (Nat.le_succ depth) _ _ early] at absent
          cases absent
  have never : ∀ depth, contents.approximate depth key = none := by
    intro depth
    induction depth with
    | zero => rfl
    | succ depth ih =>
      by_contra present
      exact shallow depth key key cycle present ih
  cases found : contents.valueOf [] key with
  | none => rfl
  | some value =>
    obtain ⟨depth, reached⟩ := valueOf_eq_some_iff.mp found
    rw [never depth] at reached
    cases reached

/-- A key without a value takes the value from every key that leads to it. -/
theorem valueOf_of_reaches {first second : Key}
    (chain : Relation.ReflTransGen contents.Refers first second)
    (absent : contents.valueOf [] second = none) : contents.valueOf [] first = none := by
  induction chain using Relation.ReflTransGen.head_induction_on with
  | refl => exact absent
  | head refers _ ih =>
    obtain ⟨node, found, member⟩ := refers
    rw [valueOf_node found]
    exact evaluate_strict.1 node _ member ih

end Contents

end Blueprint
