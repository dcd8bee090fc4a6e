import Blueprint.Proofs.OrderedMap
import Blueprint.Resolution.Task
/-! Plain sequential evaluation of nodes: the recursion that a resolution carries out with fields side
by side, bounded collections and a shared registry. A node is evaluated for a given meaning of
references; what a reference means is in turn found by evaluating what is registered. -/

namespace Blueprint

section Partial

variable {α β : Type}

/-- The first has no value that the second does not have. -/
def Below (first second : Option α) : Prop :=
  ∀ value, first = some value → second = some value

theorem Below.refl (value : Option α) : Below value value := fun _ found => found

theorem Below.trans {first second third : Option α} (lower : Below first second)
    (upper : Below second third) : Below first third :=
  fun value found => upper value (lower value found)

theorem Below.of_eq {first second : Option α} (same : first = second) : Below first second :=
  same ▸ Below.refl first

@[simp] theorem none_below (value : Option α) : Below none value := by
  intro _ found
  cases found

@[simp] theorem some_below_iff {value : α} {second : Option α} :
    Below (some value) second ↔ second = some value :=
  ⟨fun below => below value rfl, fun found _ same => Option.some.inj same ▸ found⟩

theorem Below.map {first second : Option α} (below : Below first second) (change : α → β) :
    Below (first.map change) (second.map change) := by
  cases first with
  | none => exact none_below _
  | some value => rw [below value rfl]; exact Below.refl _

theorem Below.bind {first second : Option α} {next after : α → Option β}
    (below : Below first second) (later : ∀ value, Below (next value) (after value)) :
    Below (first.bind next) (second.bind after) := by
  cases first with
  | none => exact none_below _
  | some value => rw [below value rfl]; exact later value

/-- All values in order, if none is missing. -/
def collect : List (Option α) → Option (List α)
  | [] => some []
  | value :: rest => value.bind fun first => (collect rest).map (first :: ·)

@[simp] theorem collect_nil : collect ([] : List (Option α)) = some [] := rfl

@[simp] theorem collect_cons (value : Option α) (rest : List (Option α)) :
    collect (value :: rest) = value.bind fun first => (collect rest).map (first :: ·) := rfl

@[simp] theorem collect_map_some (values : List α) : collect (values.map some) = some values := by
  induction values with
  | nil => rfl
  | cons value rest ih => simp [ih]

theorem collect_append (first second : List (Option α)) :
    collect (first ++ second) =
      (collect first).bind fun values => (collect second).map (values ++ ·) := by
  induction first with
  | nil => simp
  | cons value rest ih =>
    cases value with
    | none => rfl
    | some value => cases found : collect rest <;> simp [ih, found, Function.comp_def]

theorem mapM_eq_collect (change : β → Option α) (items : List β) :
    items.mapM change = collect (items.map change) := by
  induction items with
  | nil => rfl
  | cons item rest ih =>
    simp only [List.mapM_cons, ih, List.map_cons, collect_cons]
    cases change item <;> cases collect (rest.map change) <;> rfl

theorem collect_map_map (change : α → β) (values : List (Option α)) :
    collect (values.map (Option.map change)) = (collect values).map (List.map change) := by
  induction values with
  | nil => rfl
  | cons value rest ih =>
    cases value with
    | none => rfl
    | some value => cases found : collect rest <;> simp [ih, found]

theorem collect_eq_some_iff {values : List (Option α)} {all : List α} :
    collect values = some all ↔ values = all.map some := by
  induction values generalizing all with
  | nil => cases all <;> simp
  | cons value rest ih =>
    cases value with
    | none => cases all <;> simp
    | some value =>
      cases all with
      | nil => simp
      | cons first others => simp [Option.map_eq_some_iff, ih, and_comm]

theorem collect_eq_none_iff {values : List (Option α)} : collect values = none ↔ none ∈ values := by
  induction values with
  | nil => simp
  | cons value rest ih => cases value <;> simp [ih]

theorem collect_below {ι : Type} (items : List ι) {first second : ι → Option α}
    (each : ∀ item ∈ items, Below (first item) (second item)) :
    Below (collect (items.map first)) (collect (items.map second)) := by
  induction items with
  | nil => exact Below.refl _
  | cons item rest ih =>
    exact (each item (by simp)).bind fun value =>
      (ih fun other member => each other (List.mem_cons_of_mem _ member)).map (value :: ·)

end Partial

namespace EntityType

variable {α β : Type}

/-- Planning looks at names only. -/
theorem plan_mapKeyed (type : EntityType) (change : String → α → β) (fields : List (String × α)) :
    type.plan (fields.map fun field => (field.1, change field.1 field.2)) =
      (type.plan fields).map (List.map fun field => (field.1, change field.1 field.2)) := by
  unfold plan
  split
  · simp only [List.map_map, Function.comp_def, List.map_filterMap, OrderedMap.get?_mapKeyed,
      Option.map_map]
  · rfl

theorem plan_map (type : EntityType) (change : α → β) (fields : List (String × α)) :
    type.plan (fields.map fun field => (field.1, change field.2)) =
      (type.plan fields).map (List.map fun field => (field.1, change field.2)) :=
  type.plan_mapKeyed (fun _ => change) fields

/-- A field is planned with the slot that is found under its name. -/
theorem get?_of_mem_plan {type : EntityType} {fields : List (String × α)} {field : String × α}
    (planned : field ∈ (type.plan fields).flatten) : OrderedMap.get? fields field.1 = some field.2 := by
  obtain ⟨stage, inside, member⟩ := List.mem_flatten.mp planned
  unfold plan at inside
  split at inside
  · obtain ⟨names, _, rfl⟩ := List.mem_map.mp inside
    obtain ⟨name, _, found⟩ := List.mem_filterMap.mp member
    obtain ⟨content, present, rfl⟩ := Option.map_eq_some_iff.mp found
    exact present
  · simp at inside

theorem mem_of_mem_plan {type : EntityType} {fields : List (String × α)} {field : String × α}
    (planned : field ∈ (type.plan fields).flatten) : field ∈ fields :=
  OrderedMap.mem_of_get? (get?_of_mem_plan planned)

end EntityType

/-- A field with its value, if it has one. -/
def named (field : String × Option Value) : Option (String × Value) :=
  field.2.map fun value => (field.1, value)

mutual

/-- The value of a node, given the values of references. -/
def Node.evaluate (lookup : Key → Option Value) : Node → Option Value
  | .literal value => some value
  | .reference type name => lookup (Node.keyOf type name)
  | .nested shell => shell.evaluate lookup

/-- An entity has a value if all fields that its type resolves have one. -/
def Shell.evaluate (lookup : Key → Option Value) : Shell → Option Value
  | .record type fields =>
    (collect ((type.plan (evaluateFields lookup fields)).flatten.map named)).map type.assemble
  | .variant _ tag shell => (shell.evaluate lookup).map (.variant tag)
  | .counted _ value _ _ => some value
  | .stalled _ _ => none
  | .delayed _ node _ => node.evaluate lookup

def Slot.evaluate (lookup : Key → Option Value) : Slot → Option Value
  | .required none => none
  | .required (some node) => node.evaluate lookup
  | .optional none => some .absent
  | .optional (some node) => (node.evaluate lookup).map .present
  | .repeated nodes => (collect (evaluateItems lookup nodes)).map .list
  | .keyed pairs => (collect (evaluatePairs lookup pairs)).map Value.ofPairs

def evaluateFields (lookup : Key → Option Value) :
    List (String × Slot) → List (String × Option Value)
  | [] => []
  | (name, slot) :: rest => (name, slot.evaluate lookup) :: evaluateFields lookup rest

def evaluateItems (lookup : Key → Option Value) : List Node → List (Option Value)
  | [] => []
  | node :: rest => node.evaluate lookup :: evaluateItems lookup rest

def evaluatePairs (lookup : Key → Option Value) :
    List (Node × Node) → List (Option (Value × Value))
  | [] => []
  | (key, value) :: rest =>
    ((key.evaluate lookup).bind fun first => (value.evaluate lookup).map (first, ·)) ::
      evaluatePairs lookup rest

end

mutual

/-- The keys that a node refers to in its own tree, every occurrence counted. -/
def Node.references : Node → List Key
  | .literal _ => []
  | .reference type name => [Node.keyOf type name]
  | .nested shell => shell.references

def Shell.references : Shell → List Key
  | .record type fields => (type.plan (fieldReferences fields)).flatten.flatMap (·.2)
  | .variant _ _ shell => shell.references
  | .counted _ _ _ _ | .stalled _ _ => []
  | .delayed _ node _ => node.references

def Slot.references : Slot → List Key
  | .required none | .optional none => []
  | .required (some node) | .optional (some node) => node.references
  | .repeated nodes => itemReferences nodes
  | .keyed pairs => pairReferences pairs

def fieldReferences : List (String × Slot) → List (String × List Key)
  | [] => []
  | (name, slot) :: rest => (name, slot.references) :: fieldReferences rest

def itemReferences : List Node → List Key
  | [] => []
  | node :: rest => node.references ++ itemReferences rest

def pairReferences : List (Node × Node) → List Key
  | [] => []
  | (key, value) :: rest => key.references ++ value.references ++ pairReferences rest

end

section Traversal

variable (lookup : Key → Option Value)

theorem evaluateFields_eq_map (fields : List (String × Slot)) :
    evaluateFields lookup fields = fields.map fun field => (field.1, field.2.evaluate lookup) := by
  induction fields with
  | nil => simp [evaluateFields]
  | cons field rest ih => simp [evaluateFields, ih]

theorem evaluateItems_eq_map (nodes : List Node) :
    evaluateItems lookup nodes = nodes.map (Node.evaluate lookup) := by
  induction nodes with
  | nil => simp [evaluateItems]
  | cons node rest ih => simp [evaluateItems, ih]

theorem evaluatePairs_eq_map (pairs : List (Node × Node)) :
    evaluatePairs lookup pairs = pairs.map fun pair =>
      (pair.1.evaluate lookup).bind fun first => (pair.2.evaluate lookup).map (first, ·) := by
  induction pairs with
  | nil => simp [evaluatePairs]
  | cons pair rest ih => simp [evaluatePairs, ih]

theorem fieldReferences_eq_map (fields : List (String × Slot)) :
    fieldReferences fields = fields.map fun field => (field.1, field.2.references) := by
  induction fields with
  | nil => simp [fieldReferences]
  | cons field rest ih => simp [fieldReferences, ih]

theorem itemReferences_eq_flatMap (nodes : List Node) :
    itemReferences nodes = nodes.flatMap Node.references := by
  induction nodes with
  | nil => simp [itemReferences]
  | cons node rest ih => simp [itemReferences, ih]

theorem pairReferences_eq_flatMap (pairs : List (Node × Node)) :
    pairReferences pairs = pairs.flatMap fun pair => pair.1.references ++ pair.2.references := by
  induction pairs with
  | nil => simp [pairReferences]
  | cons pair rest ih => simp [pairReferences, ih]

/-- The value of a record, field by field in the order of resolution. -/
theorem Shell.evaluate_record (type : EntityType) (fields : List (String × Slot)) :
    (Shell.record type fields).evaluate lookup =
      (collect ((type.plan fields).flatten.map fun field =>
        (field.2.evaluate lookup).map fun value => (field.1, value))).map type.assemble := by
  rw [Shell.evaluate, evaluateFields_eq_map, EntityType.plan_map]
  simp only [← List.map_flatten, List.map_map, Function.comp_def, named]

theorem Shell.references_record (type : EntityType) (fields : List (String × Slot)) :
    (Shell.record type fields).references =
      (type.plan fields).flatten.flatMap fun field => field.2.references := by
  rw [Shell.references, fieldReferences_eq_map, EntityType.plan_map]
  simp only [← List.map_flatten, List.flatMap_map]

theorem Shell.mem_references_record {key : Key} {type : EntityType} {fields : List (String × Slot)} :
    key ∈ (Shell.record type fields).references ↔ ∃ field ∈ (type.plan fields).flatten, key ∈ field.2.references := by
  rw [Shell.references_record, List.mem_flatMap]

theorem Slot.mem_references_repeated {key : Key} {nodes : List Node} :
    key ∈ (Slot.repeated nodes).references ↔ ∃ node ∈ nodes, key ∈ node.references := by
  rw [Slot.references, itemReferences_eq_flatMap, List.mem_flatMap]

theorem Slot.mem_references_keyed {key : Key} {pairs : List (Node × Node)} :
    key ∈ (Slot.keyed pairs).references ↔ ∃ pair ∈ pairs, key ∈ pair.1.references ∨ key ∈ pair.2.references := by
  simp only [Slot.references, pairReferences_eq_flatMap, List.mem_flatMap, List.mem_append]

end Traversal

section Induction

variable {onNode : Node → Prop} {onShell : Shell → Prop} {onSlot : Slot → Prop}

/-- Induction over nodes, shells and slots at once. -/
theorem Node.tree_induction
    (literal : ∀ value, onNode (.literal value))
    (reference : ∀ type name, onNode (.reference type name))
    (nested : ∀ shell, onShell shell → onNode (.nested shell))
    (record : ∀ type fields, (∀ field ∈ fields, onSlot field.2) → onShell (.record type fields))
    (variant : ∀ union tag shell, onShell shell → onShell (.variant union tag shell))
    (counted : ∀ type value delay counter, onShell (.counted type value delay counter))
    (stalled : ∀ type counter, onShell (.stalled type counter))
    (delayed : ∀ type node delay, onNode node → onShell (.delayed type node delay))
    (required : ∀ node : Option Node, (∀ inner ∈ node, onNode inner) → onSlot (.required node))
    (optional : ∀ node : Option Node, (∀ inner ∈ node, onNode inner) → onSlot (.optional node))
    (repeated : ∀ nodes, (∀ node ∈ nodes, onNode node) → onSlot (.repeated nodes))
    (keyed : ∀ pairs : List (Node × Node), (∀ pair ∈ pairs, onNode pair.1 ∧ onNode pair.2) →
      onSlot (.keyed pairs)) :
    (∀ node, onNode node) ∧ (∀ shell, onShell shell) ∧ ∀ slot, onSlot slot := by
  -- a node says what holds of its shell as well, so one recursion serves both
  have nodes : ∀ node, onNode node ∧ ∀ shell, node = .nested shell → onShell shell := by
    refine @Node.rec (fun node => onNode node ∧ ∀ shell, node = .nested shell → onShell shell)
      onShell onSlot (fun fields => ∀ field ∈ fields, onSlot field.2)
      (fun node => ∀ inner ∈ node, onNode inner) (fun nodes => ∀ node ∈ nodes, onNode node)
      (fun pairs => ∀ pair ∈ pairs, onNode pair.1 ∧ onNode pair.2) (fun field => onSlot field.2)
      (fun pair => onNode pair.1 ∧ onNode pair.2) ?_ ?_ ?_ record variant counted stalled ?_
      required optional repeated keyed ?_ ?_ ?_ ?_ ?_ ?_ ?_ ?_ ?_ ?_ <;>
      simp +contextual [literal, reference, nested, delayed]
  have shells : ∀ shell, onShell shell := fun shell => (nodes (.nested shell)).2 shell rfl
  refine ⟨fun node => (nodes node).1, shells, fun slot => ?_⟩
  cases slot with
  | required node => exact required node fun inner _ => (nodes inner).1
  | optional node => exact optional node fun inner _ => (nodes inner).1
  | repeated items => exact repeated items fun node _ => (nodes node).1
  | keyed pairs => exact keyed pairs fun pair _ => ⟨(nodes pair.1).1, (nodes pair.2).1⟩

end Induction

section Monotone

variable {lookup other : Key → Option Value}

/-- Only the references in its tree matter for the value of a node, and more values for them can only
give more. -/
theorem evaluate_below :
    (∀ node : Node, (∀ key ∈ node.references, Below (lookup key) (other key)) →
      Below (node.evaluate lookup) (node.evaluate other)) ∧
    (∀ shell : Shell, (∀ key ∈ shell.references, Below (lookup key) (other key)) →
      Below (shell.evaluate lookup) (shell.evaluate other)) ∧
    ∀ slot : Slot, (∀ key ∈ slot.references, Below (lookup key) (other key)) →
      Below (slot.evaluate lookup) (slot.evaluate other) := by
  apply Node.tree_induction
  case literal => exact fun value _ => Below.refl _
  case reference => exact fun type name more => more _ (by simp [Node.references])
  case nested => exact fun shell ih more => ih more
  case record =>
    intro type fields ih more
    rw [Shell.evaluate_record, Shell.evaluate_record]
    refine (collect_below _ fun field planned => Below.map ?_ _).map _
    exact ih field (EntityType.mem_of_mem_plan planned) fun key member =>
      more key (Shell.mem_references_record.mpr ⟨field, planned, member⟩)
  case variant => exact fun union tag shell ih more => (ih more).map _
  case counted => exact fun type value delay counter _ => Below.refl _
  case stalled => exact fun type counter _ => Below.refl _
  case delayed => exact fun type node delay ih more => ih more
  case required =>
    intro node ih more
    cases node with
    | none => exact Below.refl _
    | some inner => exact ih inner rfl more
  case optional =>
    intro node ih more
    cases node with
    | none => exact Below.refl _
    | some inner => exact (ih inner rfl more).map _
  case repeated =>
    intro nodes ih more
    simp only [Slot.evaluate, evaluateItems_eq_map]
    refine (collect_below _ fun node member => ?_).map _
    exact ih node member fun key inside => more key (Slot.mem_references_repeated.mpr ⟨node, member, inside⟩)
  case keyed =>
    intro pairs ih more
    simp only [Slot.evaluate, evaluatePairs_eq_map]
    refine (collect_below _ fun pair member => ?_).map _
    have inside : ∀ key, key ∈ pair.1.references ∨ key ∈ pair.2.references → Below (lookup key) (other key) :=
      fun key found => more key (Slot.mem_references_keyed.mpr ⟨pair, member, found⟩)
    have both := ih pair member
    exact (both.1 fun key found => inside key (.inl found)).bind fun first =>
      (both.2 fun key found => inside key (.inr found)).map (first, ·)

theorem Node.evaluate_mono (more : ∀ key, Below (lookup key) (other key)) (node : Node) :
    Below (node.evaluate lookup) (node.evaluate other) :=
  evaluate_below.1 node fun key _ => more key

/-- A reference without a value leaves what contains it without one. -/
theorem evaluate_strict :
    (∀ node : Node, ∀ key ∈ node.references, lookup key = none → node.evaluate lookup = none) ∧
    (∀ shell : Shell, ∀ key ∈ shell.references, lookup key = none →
      shell.evaluate lookup = none) ∧
    ∀ slot : Slot, ∀ key ∈ slot.references, lookup key = none → slot.evaluate lookup = none := by
  apply Node.tree_induction
  case literal => simp [Node.references]
  case reference => simp +contextual [Node.references, Node.evaluate]
  case nested => exact fun shell ih => ih
  case record =>
    intro type fields ih key member absent
    obtain ⟨field, planned, inside⟩ := Shell.mem_references_record.mp member
    have missing := ih field (EntityType.mem_of_mem_plan planned) key inside absent
    rw [Shell.evaluate_record, Option.map_eq_none_iff, collect_eq_none_iff]
    exact List.mem_map.mpr ⟨field, planned, by rw [missing]; rfl⟩
  case variant =>
    intro union tag shell ih key member absent
    rw [Shell.evaluate, ih key member absent]
    rfl
  case counted => simp [Shell.references]
  case stalled => simp [Shell.references]
  case delayed => exact fun type node delay ih => ih
  case required =>
    intro node ih key member absent
    cases node with
    | none => rfl
    | some inner => exact ih inner rfl key member absent
  case optional =>
    intro node ih key member absent
    cases node with
    | none => simp [Slot.references] at member
    | some inner => rw [Slot.evaluate, ih inner rfl key member absent]; rfl
  case repeated =>
    intro nodes ih key member absent
    obtain ⟨node, inside, found⟩ := Slot.mem_references_repeated.mp member
    rw [Slot.evaluate, evaluateItems_eq_map, Option.map_eq_none_iff, collect_eq_none_iff]
    exact List.mem_map.mpr ⟨node, inside, ih node inside key found absent⟩
  case keyed =>
    intro pairs ih key member absent
    obtain ⟨pair, inside, found⟩ := Slot.mem_references_keyed.mp member
    rw [Slot.evaluate, evaluatePairs_eq_map, Option.map_eq_none_iff, collect_eq_none_iff]
    refine List.mem_map.mpr ⟨pair, inside, ?_⟩
    rcases found with first | second
    · rw [(ih pair inside).1 key first absent]; rfl
    · rw [(ih pair inside).2 key second absent]
      cases pair.1.evaluate lookup <;> rfl

end Monotone

end Blueprint
