import Blueprint.Path
import Blueprint.Proofs.Contents
/-! Places, and the way from one to another. A path is read from a node: a field leads to what its slot holds,
a position to an element or a pair, `key` and `value` to the two parts of a pair, and a reference to the node
that is registered under its key. Unions and delays are passed through without a segment. -/

namespace Blueprint

/-- What a path can lead to. -/
inductive Place where
  | literal (value : Value)
  | reference (type : EntityType) (name : String)
  | record (type : EntityType) (fields : List (String × Slot))
  /-- a shell in which there are no nodes -/
  | instrument (shell : Shell)
  /-- a required field that was never set -/
  | unset (entity field : String)
  /-- an optional field that was left out -/
  | omitted
  | repeated (nodes : List Node)
  | keyed (pairs : List (Node × Node))
  | pair (key value : Node)

mutual

/-- Where the path of a node leads. -/
def Node.place : Node → Place
  | .literal value => .literal value
  | .reference type name => .reference type name
  | .nested shell => shell.place

/-- Where the path of a shell leads: a union has that of its variant. -/
def Shell.place : Shell → Place
  | .record type fields => .record type fields
  | .variant _ _ shell => shell.place
  | .counted type value delay counter => .instrument (.counted type value delay counter)
  | .stalled type counter => .instrument (.stalled type counter)
  | .delayed _ node _ => node.place

end

/-- Where the path of a field of an entity leads. -/
def Slot.place (entity name : String) : Slot → Place
  | .required none => .unset entity name
  | .optional none => .omitted
  | .required (some node) | .optional (some node) => node.place
  | .repeated nodes => .repeated nodes
  | .keyed pairs => .keyed pairs

namespace Place

variable {contents more : Contents} {start place next : Place} {segment : Segment} {segments : List Segment}

/-- One segment further down. -/
def below? (contents : Contents) : Place → Segment → Option Place
  | record type fields, .field name => (OrderedMap.get? fields name).map (Slot.place type.entityName name)
  | repeated nodes, .index position => nodes[position]?.map Node.place
  | keyed pairs, .index position => pairs[position]?.map fun both => pair both.1 both.2
  | pair key _, .field "key" => some key.place
  | pair _ value, .field "value" => some value.place
  | reference type name, .reference target =>
    if target = (Node.keyOf type name).text then (contents.node? (Node.keyOf type name)).map Node.place else none
  | _, _ => none

/-- Some segments further down. -/
def walk? (contents : Contents) (start : Place) (segments : List Segment) : Option Place :=
  segments.foldlM (below? contents) start

/-- A walk goes on where it ends. -/
theorem walk?_concat (walked : walk? contents start segments = some place)
    (below : below? contents place segment = some next) :
    walk? contents start (segments ++ [segment]) = some next := by
  rw [walk?, List.foldlM_append, ← walk?, walked]
  simpa using below

/-- What is registered later does not turn a walk aside. -/
theorem below?_mono (wider : contents.Extends more) (below : below? contents place segment = some next) :
    below? more place segment = some next := by
  unfold below? at below ⊢
  split at below
  next => exact below
  next => exact below
  next => exact below
  next => exact below
  next => exact below
  next type name target =>
    split at below
    next same =>
      obtain ⟨node, found, rfl⟩ := Option.map_eq_some_iff.mp below
      simp [same, wider.node? found]
    next => cases below
  next => cases below

theorem walk?_mono (wider : contents.Extends more) (walked : walk? contents start segments = some place) :
    walk? more start segments = some place := by
  induction segments generalizing start with
  | nil => exact walked
  | cons segment rest ih =>
    rw [walk?, List.foldlM_cons] at walked ⊢
    obtain ⟨next, below, later⟩ := Option.bind_eq_some_iff.mp walked
    exact Option.bind_eq_some_iff.mpr ⟨next, below?_mono wider below, ih later⟩

end Place

/-- A path begins with another one and leads on from there, from one place to another. -/
def Path.Leads (contents : Contents) (base : Path) (start : Place) (path : Path) (place : Place) : Prop :=
  ∃ segments, path.segments = base.segments ++ segments ∧ start.walk? contents segments = some place

namespace Path.Leads

variable {contents more : Contents} {base path : Path} {start place next : Place}

theorem refl (contents : Contents) (base : Path) (start : Place) : base.Leads contents start base start :=
  ⟨[], (List.append_nil _).symm, rfl⟩

theorem child (leads : base.Leads contents start path place) (segment : Segment)
    (below : place.below? contents segment = some next) :
    base.Leads contents start (path.child segment) next := by
  obtain ⟨segments, same, walked⟩ := leads
  refine ⟨segments ++ [segment], ?_, Place.walk?_concat walked below⟩
  rw [Path.child, same, List.append_assoc]

theorem mono (wider : contents.Extends more) (leads : base.Leads contents start path place) :
    base.Leads more start path place := by
  obtain ⟨segments, same, walked⟩ := leads
  exact ⟨segments, same, Place.walk?_mono wider walked⟩

end Path.Leads

end Blueprint
