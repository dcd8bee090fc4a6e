import Blueprint.Proofs.Alone.Returning
/-! Parts of a tree moved into the registry. Nodes at some positions give way to references to keys that nothing
else refers to, under which the same nodes are registered, or the values they have. That changes nothing about the
value of the tree. -/

namespace Blueprint

/-- From a node to one right below it. Unions are passed through. -/
inductive Branch where
  | field (name : String)
  | element (name : String) (position : Nat)
  | key (name : String) (position : Nat)
  | value (name : String) (position : Nat)
  /-- the node that a delay stands before -/
  | delayed
  deriving DecidableEq, Repr

/-- A position in a tree, read from its root. -/
abbrev Position := List Branch

namespace Branch

/-- The field that a branch leaves from. -/
def name? : Branch → Option String
  | field name | element name _ | key name _ | value name _ => some name
  | delayed => none

end Branch

/-- The node that a branch of a field leads to. -/
def Slot.child? : Slot → Branch → Option Node
  | .required node, .field _ | .optional node, .field _ => node
  | .repeated nodes, .element _ position => nodes[position]?
  | .keyed pairs, .key _ position => pairs[position]?.map (·.1)
  | .keyed pairs, .value _ position => pairs[position]?.map (·.2)
  | _, _ => none

def Shell.child? : Shell → Branch → Option Node
  | .record _ fields, branch =>
    branch.name?.bind fun name => (OrderedMap.get? fields name).bind fun slot => slot.child? branch
  | .variant _ _ shell, branch => shell.child? branch
  | .delayed _ node _, .delayed => some node
  | _, _ => none

def Node.child? : Node → Branch → Option Node
  | .nested shell, branch => shell.child? branch
  | _, _ => none

/-- The node at a position. -/
def Node.at? : Node → Position → Option Node
  | node, [] => some node
  | node, branch :: position => (node.child? branch).bind fun child => child.at? position

/-- What is chosen: the positions whose nodes are replaced, with the references that take their places. -/
abbrev Choice := Position → Option (EntityType × String)

namespace Choice

/-- What is chosen below a position. -/
def under (choice : Choice) (position : Position) : Choice := fun further => choice (position ++ further)

/-- What takes the place of a node if its position is chosen. -/
def put (choice : Choice) (node : Node) : Node :=
  match choice [] with
  | some (type, name) => .reference type name
  | none => node

end Choice

mutual

/-- A node that stays in its place, with the chosen positions below it replaced. -/
def Node.hollow (choice : Choice) : Node → Node
  | .literal value => .literal value
  | .reference type name => .reference type name
  | .nested shell => .nested (shell.hollow choice)

def Shell.hollow (choice : Choice) : Shell → Shell
  | .record type fields => .record type (hollowFields choice fields)
  | .variant union tag shell => .variant union tag (shell.hollow choice)
  | .counted type value delay counter => .counted type value delay counter
  | .stalled type counter => .stalled type counter
  | .delayed type node delay =>
    .delayed type ((choice.under [.delayed]).put (node.hollow (choice.under [.delayed]))) delay

def Slot.hollow (choice : Choice) (name : String) : Slot → Slot
  | .required none => .required none
  | .required (some node) =>
    .required (some ((choice.under [.field name]).put (node.hollow (choice.under [.field name]))))
  | .optional none => .optional none
  | .optional (some node) =>
    .optional (some ((choice.under [.field name]).put (node.hollow (choice.under [.field name]))))
  | .repeated nodes => .repeated (hollowItems choice name 0 nodes)
  | .keyed pairs => .keyed (hollowPairs choice name 0 pairs)

def hollowFields (choice : Choice) : List (String × Slot) → List (String × Slot)
  | [] => []
  | (name, slot) :: rest => (name, slot.hollow choice name) :: hollowFields choice rest

def hollowItems (choice : Choice) (name : String) (position : Nat) : List Node → List Node
  | [] => []
  | node :: rest =>
    (choice.under [.element name position]).put (node.hollow (choice.under [.element name position])) ::
      hollowItems choice name (position + 1) rest

def hollowPairs (choice : Choice) (name : String) (position : Nat) : List (Node × Node) → List (Node × Node)
  | [] => []
  | (key, value) :: rest =>
    ((choice.under [.key name position]).put (key.hollow (choice.under [.key name position])),
      (choice.under [.value name position]).put (value.hollow (choice.under [.value name position]))) ::
      hollowPairs choice name (position + 1) rest

end

/-- A tree with the chosen positions replaced. -/
def Node.extract (choice : Choice) (node : Node) : Node :=
  choice.put (node.hollow choice)

section Hollow

variable (choice : Choice)

theorem hollowFields_eq_map (fields : List (String × Slot)) :
    hollowFields choice fields = fields.map fun field => (field.1, field.2.hollow choice field.1) := by
  induction fields with
  | nil => simp [hollowFields]
  | cons field rest ih => simp [hollowFields, ih]

theorem hollowItems_eq_mapIdx (name : String) (position : Nat) (nodes : List Node) :
    hollowItems choice name position nodes =
      nodes.mapIdx fun index node => node.extract (choice.under [.element name (position + index)]) := by
  induction nodes generalizing position with
  | nil => simp [hollowItems]
  | cons node rest ih =>
    rw [hollowItems, ih, List.mapIdx_cons]
    simp only [Nat.add_zero, Nat.add_right_comm, Nat.add_assoc, Node.extract]

theorem hollowPairs_eq_mapIdx (name : String) (position : Nat) (pairs : List (Node × Node)) :
    hollowPairs choice name position pairs =
      pairs.mapIdx fun index pair => (pair.1.extract (choice.under [.key name (position + index)]),
        pair.2.extract (choice.under [.value name (position + index)])) := by
  induction pairs generalizing position with
  | nil => simp [hollowPairs]
  | cons pair rest ih =>
    rw [hollowPairs, ih, List.mapIdx_cons]
    simp only [Nat.add_zero, Nat.add_right_comm, Nat.add_assoc, Node.extract]

end Hollow

section Meaning

variable {lookup : Key → Option Value} {choice : Choice}

theorem evaluate_hollow_record {type : EntityType} {fields : List (String × Slot)}
    (same : ∀ field ∈ (type.plan fields).flatten,
      (field.2.hollow choice field.1).evaluate lookup = field.2.evaluate lookup) :
    ((Shell.record type fields).hollow choice).evaluate lookup = (Shell.record type fields).evaluate lookup := by
  have plans := type.plan_mapKeyed (fun name (slot : Slot) => slot.hollow choice name) fields
  rw [Shell.hollow, hollowFields_eq_map, Shell.evaluate_record, Shell.evaluate_record, plans, ← List.map_flatten,
    List.map_map]
  refine congrArg (fun values => (collect values).map type.assemble) (List.map_congr_left fun field planned => ?_)
  exact congrArg (Option.map fun value => (field.1, value)) (same field planned)

theorem evaluate_hollow_repeated {name : String} {nodes : List Node}
    (same : ∀ position (node : Node), nodes[position]? = some node →
      (node.extract (choice.under [.element name position])).evaluate lookup = node.evaluate lookup) :
    ((Slot.repeated nodes).hollow choice name).evaluate lookup = (Slot.repeated nodes).evaluate lookup := by
  rw [Slot.hollow, hollowItems_eq_mapIdx, Slot.evaluate, Slot.evaluate, evaluateItems_eq_map, evaluateItems_eq_map]
  refine congrArg (fun values => (collect values).map Value.list) (List.ext_getElem? fun position => ?_)
  rw [List.getElem?_map, List.getElem?_map, List.getElem?_mapIdx]
  cases found : nodes[position]? with
  | none => rfl
  | some node => simpa using same position node found

theorem evaluate_hollow_keyed {name : String} {pairs : List (Node × Node)}
    (keys : ∀ position (pair : Node × Node), pairs[position]? = some pair →
      (pair.1.extract (choice.under [.key name position])).evaluate lookup = pair.1.evaluate lookup)
    (values : ∀ position (pair : Node × Node), pairs[position]? = some pair →
      (pair.2.extract (choice.under [.value name position])).evaluate lookup = pair.2.evaluate lookup) :
    ((Slot.keyed pairs).hollow choice name).evaluate lookup = (Slot.keyed pairs).evaluate lookup := by
  rw [Slot.hollow, hollowPairs_eq_mapIdx, Slot.evaluate, Slot.evaluate, evaluatePairs_eq_map, evaluatePairs_eq_map]
  refine congrArg (fun values => (collect values).map Value.ofPairs) (List.ext_getElem? fun position => ?_)
  rw [List.getElem?_map, List.getElem?_map, List.getElem?_mapIdx]
  cases found : pairs[position]? with
  | none => rfl
  | some pair => simp [keys position pair found, values position pair found]

variable {known : Key → Prop} {keeps : Choice → Node → EntityType → String → Prop}

/-- Whatever is chosen in a tree is kept. -/
def Choice.Kept (keeps : Choice → Node → EntityType → String → Prop) (choice : Choice) (node : Node) : Prop :=
  ∀ position inner type name, node.at? position = some inner → choice position = some (type, name) →
    keeps (choice.under position) inner type name

theorem Choice.Kept.child {node child : Node} {branch : Branch} (kept : choice.Kept keeps node)
    (found : node.child? branch = some child) : (choice.under [branch]).Kept keeps child :=
  fun position inner type name inside chosen => kept (branch :: position) inner type name
    (Option.bind_eq_some_iff.mpr ⟨child, found, inside⟩) chosen

/-- A reference put in means what it stands for, if that is known to have kept its own value. -/
def Means (lookup : Key → Option Value) (known : Key → Prop)
    (keeps : Choice → Node → EntityType → String → Prop) : Prop :=
  ∀ choice node type name, (∀ key ∈ node.references, known key) → keeps choice node type name →
    (node.hollow choice).evaluate lookup = node.evaluate lookup →
    lookup (Node.keyOf type name) = node.evaluate lookup

theorem Means.extract_of_hollow (means : Means lookup known keeps) {node : Node}
    (references : ∀ key ∈ node.references, known key) (kept : choice.Kept keeps node)
    (same : (node.hollow choice).evaluate lookup = node.evaluate lookup) :
    (node.extract choice).evaluate lookup = node.evaluate lookup := by
  unfold Node.extract Choice.put
  split
  next type name chosen => exact means choice node type name references (kept [] node type name rfl chosen) same
  next => exact same

/-- A tree has the value that it had before parts of it were replaced. -/
theorem Means.extract (means : Means lookup known keeps) {node : Node}
    (references : ∀ key ∈ node.references, known key) (kept : choice.Kept keeps node) :
    (node.extract choice).evaluate lookup = node.evaluate lookup := by
  refine means.extract_of_hollow references kept ((@Node.tree_induction
    (fun node => ∀ choice : Choice, (∀ key ∈ node.references, known key) → choice.Kept keeps node →
      (node.hollow choice).evaluate lookup = node.evaluate lookup)
    (fun shell => ∀ choice : Choice, (∀ key ∈ shell.references, known key) →
      (∀ branch child, shell.child? branch = some child → (choice.under [branch]).Kept keeps child) →
      (shell.hollow choice).evaluate lookup = shell.evaluate lookup)
    (fun slot => ∀ (choice : Choice) name, (∀ key ∈ slot.references, known key) →
      (∀ branch child, branch.name? = some name → slot.child? branch = some child →
        (choice.under [branch]).Kept keeps child) →
      (slot.hollow choice name).evaluate lookup = slot.evaluate lookup)
    ?literal ?reference ?nested ?record ?variant ?counted ?stalled ?delayed ?required ?optional ?repeated
    ?keyed).1 node choice references kept)
  case literal => exact fun value choice _ _ => rfl
  case reference => exact fun type name choice _ _ => rfl
  case nested => exact fun shell ih choice references kept => ih choice references fun branch child => kept.child
  case record =>
    intro type fields ih choice references kept
    refine evaluate_hollow_record fun field planned => ?_
    have found := EntityType.get?_of_mem_plan planned
    exact ih field (EntityType.mem_of_mem_plan planned) choice field.1
      (fun key member => references key (Shell.mem_references_record.mpr ⟨field, planned, member⟩))
      (fun branch child named inside => kept branch child (by simp [Shell.child?, named, found, inside]))
  case variant =>
    intro union tag shell ih choice references kept
    rw [Shell.hollow, Shell.evaluate, Shell.evaluate, ih choice references kept]
  case counted => exact fun type value delay counter choice _ _ => rfl
  case stalled => exact fun type counter choice _ _ => rfl
  case delayed =>
    intro type node delay ih choice references kept
    have own := kept .delayed node rfl
    exact means.extract_of_hollow references own (ih _ references own)
  case required =>
    intro node ih choice name references kept
    cases node with
    | none => rfl
    | some inner =>
      have own := kept (.field name) inner rfl rfl
      exact means.extract_of_hollow references own (ih inner rfl _ references own)
  case optional =>
    intro node ih choice name references kept
    cases node with
    | none => rfl
    | some inner =>
      have own := kept (.field name) inner rfl rfl
      exact congrArg (Option.map Value.present)
        (means.extract_of_hollow references own (ih inner rfl _ references own))
  case repeated =>
    intro nodes ih choice name references kept
    refine evaluate_hollow_repeated fun position node found => ?_
    have inside := List.mem_of_getElem? found
    have here : ∀ key ∈ node.references, known key := fun key member =>
      references key (Slot.mem_references_repeated.mpr ⟨node, inside, member⟩)
    have own := kept (.element name position) node rfl found
    exact means.extract_of_hollow here own (ih node inside _ here own)
  case keyed =>
    intro pairs ih choice name references kept
    have here : ∀ pair ∈ pairs, ∀ key, key ∈ pair.1.references ∨ key ∈ pair.2.references → known key :=
      fun pair inside key member => references key (Slot.mem_references_keyed.mpr ⟨pair, inside, member⟩)
    refine evaluate_hollow_keyed (fun position pair found => ?_) fun position pair found => ?_
    · have inside := List.mem_of_getElem? found
      have known := fun key member => here pair inside key (.inl member)
      have own := kept (.key name position) pair.1 rfl (by simp [Slot.child?, found])
      exact means.extract_of_hollow known own ((ih pair inside).1 _ known own)
    · have inside := List.mem_of_getElem? found
      have known := fun key member => here pair inside key (.inr member)
      have own := kept (.value name position) pair.2 rfl (by simp [Slot.child?, found])
      exact means.extract_of_hollow known own ((ih pair inside).2 _ known own)

end Meaning

/-- Only the references in its tree matter for the value of a node. -/
theorem Node.evaluate_congr {lookup other : Key → Option Value} {node : Node}
    (same : ∀ key ∈ node.references, lookup key = other key) : node.evaluate lookup = node.evaluate other :=
  Option.ext fun value =>
    ⟨evaluate_below.1 node (fun key member => Below.of_eq (same key member)) value,
      evaluate_below.1 node (fun key member => Below.of_eq (same key member).symm) value⟩

namespace Contents

variable {contents more : Contents} {roots : List Key} {key : Key}

theorem Reaches.next {next : Key} (reached : contents.Reaches roots key) (refers : contents.Refers key next) :
    contents.Reaches roots next := by
  obtain ⟨root, listed, way⟩ := reached
  exact ⟨root, listed, way.tail refers⟩

/-- What a key means depends only on what is registered under the keys that it leads to. -/
theorem valueOf_congr (same : ∀ key, contents.Reaches roots key → more.origin? key = contents.origin? key)
    (reached : contents.Reaches roots key) : more.valueOf [] key = contents.valueOf [] key := by
  have approximate_congr : ∀ depth key, contents.Reaches roots key →
      more.approximate depth key = contents.approximate depth key := by
    intro depth
    induction depth with
    | zero => exact fun _ _ => rfl
    | succ depth ih =>
      intro key reached
      have node : more.node? key = contents.node? key := by rw [node?, node?, same key reached]
      rw [approximate, approximate, same key reached, node]
      split
      next => rfl
      next =>
        cases found : contents.node? key with
        | none => rfl
        | some node =>
          exact node.evaluate_congr fun next member => ih next (reached.next ⟨node, found, member⟩)
  refine Option.ext fun value => ?_
  simp only [valueOf_eq_some_iff, approximate_congr _ key reached]

/-- A key under which nothing is registered, and to which nothing leads. -/
def Fresh (contents : Contents) (roots : List Key) (key : Key) : Prop :=
  contents.origin? key = none ∧ ¬ contents.Reaches roots key

/-- What is added under fresh keys does not change what the others mean. -/
theorem valueOf_append_of_fresh {parts : Contents} (fresh : ∀ part ∈ parts, contents.Fresh roots part.1)
    (reached : contents.Reaches roots key) : (contents ++ parts).valueOf [] key = contents.valueOf [] key := by
  refine valueOf_congr (fun other leads => ?_) reached
  rw [origin?, OrderedMap.get?_append, ← origin?]
  cases contents.origin? other with
  | some origin => rfl
  | none =>
    refine OrderedMap.get?_eq_none_iff.mpr fun listed => ?_
    obtain ⟨part, member, rfl⟩ := List.mem_map.mp listed
    exact (fresh part member).2 leads

end Contents

namespace System

variable {first second : System}

/-- A reference stands for a node of a tree: the node was registered under its key, as it was or with what was chosen
below it replaced, or else a value that a resolution of the node had returned. -/
def StandsFor (first second : System) (choice : Choice) (node : Node) (type : EntityType) (name : String) : Prop :=
  let origin := second.registered.origin? (Node.keyOf type name)
  origin = some (.deferred (.node type.typeName node)) ∨
    origin = some (.deferred (.node type.typeName (node.hollow choice))) ∨
    ∃ value config world, origin = some (.value value) ∧
      Resolver.Returns config first.world.registry node (.ok value) world

/-- Parts of a tree can be moved into the registry. With nodes at any positions replaced by references to fresh keys
under which they were registered meanwhile, or their values, a tree is resolved to the same value as before, if to
any. -/
theorem extraction_preserves_value (reachable : first.Reachable) (idle : first.Idle)
    (run : Run (fun _ => True) first second) (rests : second.Idle) {root : Node} {choice : Choice} {parts : Contents}
    (added : second.registered = first.registered ++ parts)
    (fresh : ∀ part ∈ parts, first.registered.Fresh root.references part.1)
    (extracted : choice.Kept (StandsFor first second) root) {config other : Config}
    (limitless : config.deadline = none) (endless : other.deadline = none) (value : Value) :
    (∃ world, Resolver.Returns other second.world.registry (root.extract choice) (.ok value) world) ↔
      ∃ world, Resolver.Returns config first.world.registry root (.ok value) world := by
  have before := reachable.regular.resting_of_idle idle
  have after := (run.regular reachable.regular).resting_of_idle rests
  have known : ∀ {node : Node}, (∀ key ∈ node.references, first.registered.Reaches root.references key) →
      second.registered.evaluate node = first.registered.evaluate node := fun inside =>
    Node.evaluate_congr fun key member => added ▸ Contents.valueOf_append_of_fresh fresh (inside key member)
  have own : ∀ key ∈ root.references, first.registered.Reaches root.references key :=
    fun key member => ⟨key, member, .refl⟩
  have same : second.registered.evaluate (root.extract choice) = second.registered.evaluate root := by
    refine Means.extract (fun choice node type name inside stands kept => ?_) own extracted
    rcases stands with deferred | hollowed | ⟨value, config, world, settled, returns⟩
    · exact Contents.valueOf_node (Contents.node?_eq_some_iff.mpr deferred)
    · exact (Contents.valueOf_node (Contents.node?_eq_some_iff.mpr hollowed)).trans kept
    · rw [Contents.valueOf_of_value settled]
      exact ((known inside).trans (before.evaluate_of_returns returns)).symm
  rw [after.returns_ok_iff endless, before.returns_ok_iff limitless, same, known own]

/-- A step that runs a command, with one variable set. -/
def greeting : Node :=
  .nested (.record .runStep
    [("command", .required (some (.nested (.record .text [("text", .required (some (.literal (.text "echo"))))])))),
      ("environment", .keyed [(.literal (.text "LANG"), .literal (.text "C"))])])

/-- What it is resolved to. -/
def greeted : Value :=
  .record .runStep [("command", .text "echo"), ("environment", .map [(.text "LANG", .text "C")])]

/-- The command and the value of the variable. -/
def movable : Choice
  | [.field "command"] => some (.text, "command")
  | [.value "environment" 0] => some (.text, "language")
  | _ => none

/-- The command as it is, and what the value of the variable is resolved to. -/
def moved : List Action :=
  [.register (Node.keyOf .text "command") (.deferred (.node EntityType.text.typeName
      (.nested (.record .text [("text", .required (some (.literal (.text "echo"))))])))),
    .register (Node.keyOf .text "language") (.value (.text "C"))]

theorem extraction_preserves_value_greeting :
    greeting.extract movable ≠ greeting ∧ ∃ world,
      Resolver.Returns .default (following moved).world.registry (greeting.extract movable) (.ok greeted) world := by
  have idle : initial.Idle := fun process member => nomatch member
  have run : Run (fun _ => True) initial (following moved) := run_of_perform moved (fun _ _ => trivial) rfl
  have rests : (following moved).Idle := fun process member => nomatch member
  have extracted : movable.Kept (StandsFor initial (following moved)) greeting := by
    intro position node type name inside chosen
    unfold movable at chosen
    split at chosen
    · cases chosen
      cases inside
      exact .inl rfl
    · cases chosen
      cases inside
      obtain ⟨world, returns, _⟩ : ∃ world, Resolver.Returns .default .empty (.literal (.text "C"))
          (.ok (.text "C")) world ∧ world.registry = .empty := Resolver.returns_iff_resolve?.mpr ⟨2, rfl⟩
      exact .inr (.inr ⟨.text "C", .default, world, rfl, returns⟩)
    · cases chosen
  have fresh : ∀ part ∈ (following moved).registered, initial.registered.Fresh greeting.references part.1 :=
    fun part _ => ⟨rfl, fun ⟨_, listed, _⟩ => nomatch listed⟩
  obtain ⟨world, returns, _⟩ : ∃ world, Resolver.Returns .default .empty greeting (.ok greeted) world ∧
      world.registry = .empty := Resolver.returns_iff_resolve?.mpr ⟨40, rfl⟩
  have changed : greeting.extract movable ≠ greeting := by
    simp [greeting, Node.extract, Choice.put, movable, Node.hollow, Shell.hollow, hollowFields, Slot.hollow,
      Choice.under]
  exact ⟨changed, (extraction_preserves_value .refl idle run rests rfl fresh extracted rfl rfl greeted).mpr
    ⟨world, returns⟩⟩

end System

end Blueprint
