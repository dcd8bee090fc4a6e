import Blueprint.Proofs.Alone.Rounds
import Blueprint.Proofs.Machine.Straight
/-! The failure that is reported where nothing waits. Places are gone through in a fixed order, depth first, and the
first one that fails is told, however many elements of a collection may be in flight. -/

namespace Blueprint

namespace EntityType

/-- The fields of a record in the order in which they are gone through. -/
def sequence : EntityType → List String
  | text => ["text"]
  | number => ["terms"]
  | auth => ["username", "password"]
  | checkoutStep => ["path"]
  | runStep => ["environment", "command"]
  | step => []
  | job => ["auth", "steps", "environment", "name", "image"]
  | workflow => ["jobs", "name"]
  | tree => ["child", "children", "props", "label"]

/-- That is the order of the stages, and in each stage that of its fields. -/
theorem flatten_stages {type : EntityType} {form : RecordForm} (record : type.form = .record form) :
    form.stages.flatten = type.sequence := by
  cases type <;> cases record <;> rfl

theorem flatten_plan {α : Type} (type : EntityType) (fields : List (String × α)) :
    (type.plan fields).flatten =
      type.sequence.filterMap fun name => (OrderedMap.get? fields name).map fun content => (name, content) := by
  unfold plan
  split
  next form record => rw [← flatten_stages record, List.filterMap_flatten]
  next variants union => cases type <;> first | rfl | cases union

end EntityType

namespace Registry

/-- Why a fetch of an entry is refused where the entry is complete or there is none. -/
def refusal? (registry : Registry) (type : TypeName) (key : Key) : Option RegistryError :=
  match registry.entry? key with
  | none => some (.about .notRegistered key)
  | some entry =>
    entry.value.bind fun stored => if stored.type = type then none else some (.about .typeMismatch key)

/-- Under a key there is a value or nothing at all. -/
def decided (registry : Registry) (key : Key) : Bool :=
  (registry.entry? key).all Entry.isComplete

end Registry

mutual

/-- Nothing in a tree takes time. -/
def Node.prompt : Node → Bool
  | .literal _ | .reference _ _ => true
  | .nested shell => shell.prompt

def Shell.prompt : Shell → Bool
  | .record _ fields => promptFields fields
  | .variant _ _ shell => shell.prompt
  | .counted _ _ delay _ => delay = 0
  | .stalled _ _ => false
  | .delayed _ node delay => delay = 0 && node.prompt

def Slot.prompt : Slot → Bool
  | .required none | .optional none => true
  | .required (some node) | .optional (some node) => node.prompt
  | .repeated nodes => promptItems nodes
  | .keyed pairs => promptPairs pairs

def promptFields : List (String × Slot) → Bool
  | [] => true
  | (_, slot) :: rest => slot.prompt && promptFields rest

def promptItems : List Node → Bool
  | [] => true
  | node :: rest => node.prompt && promptItems rest

def promptPairs : List (Node × Node) → Bool
  | [] => true
  | (key, value) :: rest => key.prompt && value.prompt && promptPairs rest

end

mutual

/-- The failures in a tree at a path, in the order in which its places are gone through. -/
def Node.failures (registry : Registry) (path : Path) : Node → List ResolveError
  | .literal _ => []
  | .reference type name =>
    ((registry.refusal? type.typeName (Node.keyOf type name)).map fun error => .ofRegistry error path).toList
  | .nested shell => shell.failures registry path

def Shell.failures (registry : Registry) (path : Path) : Shell → List ResolveError
  | .record type fields =>
    type.sequence.flatMap fun name =>
      (OrderedMap.get? (fieldFailures registry type.entityName path fields) name).getD []
  | .variant _ _ shell => shell.failures registry path
  | .counted _ _ _ _ | .stalled _ _ => []
  | .delayed _ node _ => node.failures registry path

def Slot.failures (registry : Registry) (entity name : String) (path : Path) : Slot → List ResolveError
  | .required none => [.missingField entity name path]
  | .optional none => []
  | .required (some node) | .optional (some node) => node.failures registry path
  | .repeated nodes => itemFailures registry path 0 nodes
  | .keyed pairs => pairFailures registry path 0 pairs

def fieldFailures (registry : Registry) (entity : String) (path : Path) :
    List (String × Slot) → List (String × List ResolveError)
  | [] => []
  | (name, slot) :: rest =>
    (name, slot.failures registry entity name (path.child (.field name))) :: fieldFailures registry entity path rest

def itemFailures (registry : Registry) (path : Path) (position : Nat) : List Node → List ResolveError
  | [] => []
  | node :: rest =>
    node.failures registry (path.child (.index position)) ++ itemFailures registry path (position + 1) rest

/-- A key comes before its value. -/
def pairFailures (registry : Registry) (path : Path) (position : Nat) : List (Node × Node) → List ResolveError
  | [] => []
  | (key, value) :: rest =>
    key.failures registry ((path.child (.index position)).child (.field "key")) ++
      value.failures registry ((path.child (.index position)).child (.field "value")) ++
      pairFailures registry path (position + 1) rest

end

section Lists

variable (registry : Registry) (path : Path)

theorem fieldFailures_eq_map (entity : String) (fields : List (String × Slot)) :
    fieldFailures registry entity path fields =
      fields.map fun field => (field.1, field.2.failures registry entity field.1 (path.child (.field field.1))) := by
  induction fields with
  | nil => simp [fieldFailures]
  | cons field rest ih => simp [fieldFailures, ih]

theorem itemFailures_eq_flatten (position : Nat) (nodes : List Node) :
    itemFailures registry path position nodes =
      (nodes.mapIdx fun index node => node.failures registry (path.child (.index (position + index)))).flatten := by
  induction nodes generalizing position with
  | nil => simp [itemFailures]
  | cons node rest ih => simp [itemFailures, ih, Nat.add_right_comm, Nat.add_assoc]

theorem pairFailures_eq_flatten (position : Nat) (pairs : List (Node × Node)) :
    pairFailures registry path position pairs =
      (pairs.mapIdx fun index pair =>
        pair.1.failures registry ((path.child (.index (position + index))).child (.field "key")) ++
          pair.2.failures registry ((path.child (.index (position + index))).child (.field "value"))).flatten := by
  induction pairs generalizing position with
  | nil => simp [pairFailures]
  | cons pair rest ih => simp [pairFailures, ih, Nat.add_right_comm, Nat.add_assoc]

theorem Shell.failures_record (type : EntityType) (fields : List (String × Slot)) :
    (Shell.record type fields).failures registry path = (type.plan fields).flatten.flatMap fun field =>
      field.2.failures registry type.entityName field.1 (path.child (.field field.1)) := by
  rw [Shell.failures, fieldFailures_eq_map, EntityType.flatten_plan]
  induction type.sequence with
  | nil => rfl
  | cons name rest ih =>
    have found := OrderedMap.get?_mapKeyed (fun name (slot : Slot) =>
      slot.failures registry type.entityName name (path.child (.field name))) fields name
    rw [List.flatMap_cons, ih, found, List.filterMap_cons]
    cases OrderedMap.get? fields name <;> rfl

theorem promptFields_iff {fields : List (String × Slot)} :
    promptFields fields ↔ ∀ field ∈ fields, field.2.prompt := by
  induction fields with
  | nil => simp [promptFields]
  | cons field rest ih => simp [promptFields, ih]

theorem promptItems_iff {nodes : List Node} : promptItems nodes ↔ ∀ node ∈ nodes, node.prompt := by
  induction nodes with
  | nil => simp [promptItems]
  | cons node rest ih => simp [promptItems, ih]

theorem promptPairs_iff {pairs : List (Node × Node)} :
    promptPairs pairs ↔ ∀ pair ∈ pairs, pair.1.prompt ∧ pair.2.prompt := by
  induction pairs with
  | nil => simp [promptPairs]
  | cons pair rest ih => simp [promptPairs, ih, and_assoc]

end Lists

namespace Registry

variable {registry : Registry} {type : TypeName} {key : Key}

/-- A fetch of an entry that is decided is answered at once, and no entry is changed. -/
theorem arrive_of_decided (own : key.type = type) (decided : registry.decided key) (owner : Option Key)
    (waiter : Waiter) :
    ∃ arrival after, registry.arrive type key owner waiter = (arrival, after) ∧ after.entries = registry.entries ∧
      match registry.refusal? type key with
      | some error => arrival = .refused error
      | none => ∃ value, arrival = .found value := by
  unfold refusal? arrive
  rw [if_neg (not_not_intro own)]
  cases found : registry.entry? key with
  | none => exact ⟨_, _, rfl, rfl, rfl⟩
  | some entry =>
    obtain ⟨value, payload, gate, queue⟩ := entry
    cases value with
    | none => simp [Registry.decided, found, Entry.isComplete] at decided
    | some stored =>
      by_cases same : stored.type = type
      · simp [asType, same]
      · simp [asType, same]

end Registry

namespace Routine

variable {registry : Registry}

theorem settles_reference {type : EntityType} {name : String} (decided : registry.decided (Node.keyOf type name))
    (scope : Scope) :
    (look (.node (.reference type name) scope)).Settles registry.entries
      ((Node.reference type name).failures registry scope.path) := by
  refine Settles.look fun machine world same _ => ?_
  have here : world.registry.refusal? = registry.refusal? := by
    funext type key
    rw [Registry.refusal?, Registry.refusal?, Registry.entry?, Registry.entry?, same]
  have known : world.registry.decided (Node.keyOf type name) := by
    rw [Registry.decided, Registry.entry?, same]
    exact decided
  have typed : (Node.keyOf type name).type = type.typeName := rfl
  obtain ⟨arrival, after, arrives, kept, answer⟩ := Registry.arrive_of_decided typed known scope.owner
    ⟨world.fresh, machine.strands⟩
  have passes : world.Passes { world.take.2 with registry := after } := ⟨kept, rfl, Nat.le_succ _⟩
  rw [here] at answer
  have ends : ∃ result, machine.pollTask (.node (.reference type name) scope) world =
      (machine.finish result, { world.take.2 with registry := after }) ∧
        Verdict ((Node.reference type name).failures registry scope.path) result := by
    cases refusal : registry.refusal? type.typeName (Node.keyOf type name) with
    | some error =>
      rw [refusal] at answer
      refine ⟨.error (.ofRegistry error scope.path), ?_, by simp [Verdict, Node.failures, refusal]⟩
      simp [Machine.pollTask, Machine.dereference, World.arrive, World.take, arrives, answer]
    | none =>
      rw [refusal] at answer
      obtain ⟨value, rfl⟩ := answer
      refine ⟨.ok value, ?_, by simp [Verdict, Node.failures, refusal]⟩
      simp [Machine.pollTask, Machine.dereference, World.arrive, World.take, arrives]
  obtain ⟨result, ends, verdict⟩ := ends
  exact ⟨result, _, ends ▸ .refl, passes, verdict⟩

theorem settles_literal (entries : List (Key × Entry)) (value : Value) (scope : Scope) :
    (look (.node (.literal value) scope)).Settles entries [] :=
  have verdict : Verdict [] (.ok value) := rfl
  (settles_of_finish verdict fun _ _ => rfl).look

/-- The key of a pair is gone through before the value, each at its own place. -/
theorem settles_pair {pair : Node × Node} {scope : Scope}
    (key : (look (.node pair.1 (scope.field "key"))).Settles registry.entries
      (pair.1.failures registry (scope.field "key").path))
    (value : (look (.node pair.2 (scope.field "value"))).Settles registry.entries
      (pair.2.failures registry (scope.field "value").path)) :
    (look (.join [.running (.node pair.1 (scope.field "key")), .running (.node pair.2 (scope.field "value"))])).Settles
      registry.entries
      (pair.1.failures registry (scope.field "key").path ++ pair.2.failures registry (scope.field "value").path) := by
  let items := [(pair.1, scope.field "key"), (pair.2, scope.field "value")]
  have joined : (look (.join (items.map fun item => .running (.node item.1 item.2)))).Settles registry.entries
      (items.flatMap fun item => item.1.failures registry item.2.path) := by
    refine settles_join (fun item member => ?_) fun item _ => traceless_node item.1 item.2
    rcases List.mem_cons.mp member with rfl | later
    · exact key
    · obtain rfl := List.mem_singleton.mp later
      exact value
  simp only [items, List.flatMap_cons, List.flatMap_nil, List.append_nil] at joined
  exact joined

variable (registry) in
/-- Where all references are decided and nothing takes time, a tree is gone through in order. -/
theorem settles_tree :
    (∀ node : Node, node.prompt → (∀ key ∈ node.references, registry.decided key) → ∀ scope,
      (look (.node node scope)).Settles registry.entries (node.failures registry scope.path)) ∧
    (∀ shell : Shell, shell.prompt → (∀ key ∈ shell.references, registry.decided key) → ∀ scope,
      (look (.shell shell scope)).Settles registry.entries (shell.failures registry scope.path)) ∧
    ∀ slot : Slot, slot.prompt → (∀ key ∈ slot.references, registry.decided key) → ∀ entity name scope,
      Settles registry.entries (fun machine world => machine.pollField entity name slot scope world)
        (slot.failures registry entity name scope.path) := by
  apply Node.tree_induction
  case literal => exact fun value _ _ scope => settles_literal registry.entries value scope
  case reference =>
    intro type name _ decided scope
    exact settles_reference (decided _ (by simp [Node.references])) scope
  case nested =>
    intro shell ih prompt decided scope
    have passes : ∀ world : World, world.Passes
        (if scope.config.spanPerEntity then world.emit (.span shell.describe scope.path) else world) := by
      intro world
      split
      · exact .emit _ _
      · exact .refl _
    exact Settles.look ((ih prompt decided scope).of_passes passes fun machine world => rfl)
  case record =>
    intro type fields ih prompt decided scope
    rw [Shell.failures_record]
    refine Settles.look (settles_stages (type.plan fields) (fun field planned => Settles.look ?_) [])
    have member := EntityType.mem_of_mem_plan planned
    exact ih field member (promptFields_iff.mp prompt field member)
      (fun key inside => decided key (Shell.mem_references_record.mpr ⟨field, planned, inside⟩)) _ field.1
      (scope.field field.1)
  case variant =>
    intro union tag shell ih prompt decided scope
    have tagged := (ih prompt decided scope).framed (fun fetch => by simp)
      fun machine value world => ⟨_, _, (rfl : machine.finishFrame (.tagged tag) value world = _), .refl world⟩
    exact Settles.look (Settles.look (tagged.of_passes (fun world => .emit world (.variant tag scope.path))
      fun machine world => rfl))
  case counted =>
    intro type value delay counter prompt _ scope
    obtain rfl : delay = 0 := by simpa [Shell.prompt] using prompt
    have literal := settles_literal registry.entries value scope
    exact Settles.look (literal.of_passes (fun world => .count world counter) fun machine world => rfl)
  case stalled => exact fun type counter prompt => by cases prompt
  case delayed =>
    intro type node delay ih prompt decided scope
    obtain ⟨none, rest⟩ : delay = 0 ∧ node.prompt = true := by simpa [Shell.prompt] using prompt
    subst none
    exact Settles.look (ih rest decided scope)
  case required =>
    intro node ih prompt decided entity name scope
    cases node with
    | none =>
      have verdict : Verdict [.missingField entity name scope.path] (.error (.missingField entity name scope.path)) :=
        rfl
      exact settles_of_finish verdict fun _ _ => rfl
    | some inner => exact ih inner rfl prompt decided scope
  case optional =>
    intro node ih prompt decided entity name scope
    cases node with
    | none =>
      have verdict : Verdict [] (.ok .absent) := rfl
      exact settles_of_finish verdict fun _ _ => rfl
    | some inner =>
      exact (ih inner rfl prompt decided scope).framed (fun fetch => by simp)
        fun machine value world => ⟨_, _, (rfl : machine.finishFrame .present value world = _), .refl world⟩
  case repeated =>
    intro nodes ih prompt decided entity name scope
    rw [Slot.failures, itemFailures_eq_flatten]
    refine settles_collection scope.config.maxConcurrency (forall₂_mapIdx fun position node found => ?_)
      fun task member => ?_
    · have inside := List.mem_of_getElem? found
      rw [Nat.zero_add]
      exact ih node inside (promptItems_iff.mp prompt node inside)
        (fun key listed => decided key (Slot.mem_references_repeated.mpr ⟨node, inside, listed⟩))
        (scope.index position)
    · obtain ⟨position, inside, rfl⟩ := List.mem_mapIdx.mp member
      trivial
  case keyed =>
    intro pairs ih prompt decided entity name scope
    rw [Slot.failures, pairFailures_eq_flatten]
    refine Settles.framed (fun fetch => by simp) (fun machine value world => ⟨_, _, rfl, fold_passes _ _ world⟩)
      (settles_collection scope.config.maxConcurrency (forall₂_mapIdx fun position pair found => ?_)
        fun task member => ?_)
    · have inside := List.mem_of_getElem? found
      have both := ih pair inside
      have quick := promptPairs_iff.mp prompt pair inside
      have known : ∀ key, key ∈ pair.1.references ∨ key ∈ pair.2.references → registry.decided key :=
        fun key listed => decided key (Slot.mem_references_keyed.mpr ⟨pair, inside, listed⟩)
      have first := both.1 quick.1 (fun key listed => known key (.inl listed))
        ((scope.index position).field "key")
      have second := both.2 quick.2 (fun key listed => known key (.inr listed))
        ((scope.index position).field "value")
      rw [Nat.zero_add]
      exact settles_pair first second
    · obtain ⟨position, inside, rfl⟩ := List.mem_mapIdx.mp member
      simp [Task.Unstarted]

end Routine

namespace Resolver

/-- Where nothing waits a resolution is over with the first look, and it fails just where its tree has failures, with
the first of them: no bound of collections, no time limit and no other setting makes a difference. -/
theorem returns_error_iff (registry : Registry) (config : Config) {node : Node} (prompt : node.prompt)
    (decided : ∀ key ∈ node.references, registry.decided key) (error : ResolveError) :
    (∃ world, Returns config registry node (.error error) world) ↔
      (node.failures registry .root).head? = some error := by
  have first : ∃ result world, Returns config registry node result world ∧
      Verdict (node.failures registry .root) result := by
    have tidy : (World.initial registry).Tidy := fun id position member => nomatch member
    obtain ⟨result, later, leads, _, verdict⟩ := (Routine.settles_tree registry).1 node prompt decided (.root config)
      (.start 0 (.node node (.root config))) (.initial registry) rfl tidy
    obtain ⟨fuel, run⟩ := leads.run (by cases result <;> rfl)
    refine ⟨result, _, returns_iff_comes.mpr (.done ⟨fuel, _, _, run, rfl⟩), verdict⟩
  obtain ⟨result, world, returns, verdict⟩ := first
  constructor
  · rintro ⟨later, other⟩
    obtain ⟨rfl, _⟩ := returns.unique other
    exact verdict
  · intro told
    cases result with
    | ok value =>
      have none : node.failures registry .root = [] := verdict
      rw [none] at told
      cases told
    | error own =>
      have same : (node.failures registry .root).head? = some own := verdict
      rw [told, Option.some.injEq] at same
      exact ⟨world, same ▸ returns⟩

/-- One text that is there. -/
def furnished : Registry :=
  ⟨[(Node.keyOf .text "shell", .complete ⟨EntityType.text.typeName, .text "sh"⟩)], .empty, 0, 0⟩

/-- A job without its name, and with a variable that is to have a text that is not there. -/
def incomplete : Node :=
  .nested (.record .job [("name", .required none),
    ("environment", .keyed [(.reference .text "shell", .literal (.text "sh")),
      (.literal (.text "TOKEN"), .reference .text "token")])])

theorem returns_error_iff_incomplete :
    (incomplete.prompt ∧ ∀ key ∈ incomplete.references, furnished.decided key) ∧
      (incomplete.failures furnished .root).length = 2 ∧
      ∃ world, Returns ⟨1, none, true⟩ furnished incomplete (.error (.unresolvedReference "String" "token"
        ⟨[.field "environment", .index 1, .field "value"]⟩)) world := by
  have prompt : incomplete.prompt := rfl
  have decided : ∀ key ∈ incomplete.references, furnished.decided key := by decide
  exact ⟨⟨prompt, decided⟩, rfl, (returns_error_iff furnished ⟨1, none, true⟩ prompt decided _).mpr rfl⟩

end Resolver

end Blueprint
