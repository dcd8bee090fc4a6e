import Blueprint.Proofs.FirstFailure
import Blueprint.Proofs.System.Orderly
/-! Trees that carry their values in themselves: nothing in them takes time, and they refer to no entry of a registry.
They are resolved at once, under any configuration and on any registry, and leave the registry as it was. -/

namespace Blueprint

/-- A node that is sure to become a value. -/
structure Node.Carries (node : Node) (value : Value) : Prop where
  prompt : node.prompt = true
  closed : node.references = []
  evaluates : ∀ lookup, node.evaluate lookup = some value

structure Shell.Carries (shell : Shell) (value : Value) : Prop where
  prompt : shell.prompt = true
  closed : shell.references = []
  evaluates : ∀ lookup, shell.evaluate lookup = some value

structure Slot.Carries (slot : Slot) (value : Value) : Prop where
  prompt : slot.prompt = true
  closed : slot.references = []
  evaluates : ∀ lookup, slot.evaluate lookup = some value

/-- A field with a slot that carries what an entry says. -/
def Fills (field : String × Slot) (entry : String × Value) : Prop := field.1 = entry.1 ∧ field.2.Carries entry.2

section Building

variable {node : Node} {shell : Shell} {value : Value}

theorem Node.carries_literal (value : Value) : (Node.literal value).Carries value :=
  ⟨rfl, rfl, fun _ => rfl⟩

theorem Shell.Carries.nested (carries : shell.Carries value) : (Node.nested shell).Carries value :=
  ⟨carries.prompt, carries.closed, carries.evaluates⟩

theorem Shell.Carries.variant (carries : shell.Carries value) (union : EntityType) (tag : String) :
    (Shell.variant union tag shell).Carries (.variant tag value) :=
  ⟨carries.prompt, carries.closed, fun lookup => by rw [Shell.evaluate, carries.evaluates, Option.map_some]⟩

theorem Node.Carries.required (carries : node.Carries value) : (Slot.required (some node)).Carries value :=
  ⟨carries.prompt, carries.closed, carries.evaluates⟩

theorem Slot.carries_absent : (Slot.optional none).Carries .absent := ⟨rfl, rfl, fun _ => rfl⟩

theorem Node.Carries.optional (carries : node.Carries value) :
    (Slot.optional (some node)).Carries (.present value) :=
  ⟨carries.prompt, carries.closed, fun lookup => by rw [Slot.evaluate, carries.evaluates, Option.map_some]⟩

theorem Slot.Carries.fills {slot : Slot} (carries : slot.Carries value) (name : String) :
    Fills (name, slot) (name, value) := ⟨rfl, carries⟩

section Several

variable {α : Type} {items : List α}

theorem Slot.carries_repeated {node : α → Node} {value : α → Value}
    (each : ∀ item ∈ items, (node item).Carries (value item)) :
    (Slot.repeated (items.map node)).Carries (.list (items.map value)) where
  prompt := promptItems_iff.mpr (List.forall_mem_map.mpr fun item member => (each item member).prompt)
  closed := by
    rw [Slot.references, itemReferences_eq_flatMap, List.flatMap_eq_nil_iff]
    exact List.forall_mem_map.mpr fun item member => (each item member).closed
  evaluates lookup := by
    have values : items.map (fun item => (node item).evaluate lookup) = (items.map value).map some := by
      rw [List.map_map]
      exact List.map_congr_left fun item member => (each item member).evaluates lookup
    rw [Slot.evaluate, evaluateItems_eq_map, List.map_map]
    exact congrArg (Option.map Value.list) ((congrArg collect values).trans (collect_map_some _))

theorem Slot.carries_keyed {pair : α → Node × Node} {value : α → Value × Value}
    (each : ∀ item ∈ items, (pair item).1.Carries (value item).1 ∧ (pair item).2.Carries (value item).2) :
    (Slot.keyed (items.map pair)).Carries (Value.ofPairs (items.map value)) where
  prompt := promptPairs_iff.mpr
    (List.forall_mem_map.mpr fun item member => ⟨(each item member).1.prompt, (each item member).2.prompt⟩)
  closed := by
    rw [Slot.references, pairReferences_eq_flatMap, List.flatMap_eq_nil_iff]
    refine List.forall_mem_map.mpr fun item member => ?_
    rw [(each item member).1.closed, (each item member).2.closed, List.append_nil]
  evaluates lookup := by
    have values : items.map (fun item => ((pair item).1.evaluate lookup).bind fun first =>
        ((pair item).2.evaluate lookup).map (first, ·)) = (items.map value).map some := by
      rw [List.map_map]
      refine List.map_congr_left fun item member => ?_
      rw [(each item member).1.evaluates, (each item member).2.evaluates]
      rfl
    rw [Slot.evaluate, evaluatePairs_eq_map, List.map_map]
    exact congrArg (Option.map Value.ofPairs) ((congrArg collect values).trans (collect_map_some _))

end Several

theorem exists_carries_of_fills {fields : List (String × Slot)} {entries : List (String × Value)}
    (each : List.Forall₂ Fills fields entries) {field : String × Slot} (member : field ∈ fields) :
    ∃ value, field.2.Carries value := by
  induction each with
  | nil => cases member
  | cons here _ ih =>
    rcases List.mem_cons.mp member with rfl | later
    · exact ⟨_, here.2⟩
    · exact ih later

theorem evaluateFields_of_fills (lookup : Key → Option Value) {fields : List (String × Slot)}
    {entries : List (String × Value)} (each : List.Forall₂ Fills fields entries) :
    evaluateFields lookup fields = entries.map fun entry => (entry.1, some entry.2) := by
  induction each with
  | nil => rfl
  | cons here _ ih =>
    obtain ⟨name, carries⟩ := here
    rw [evaluateFields, List.map_cons, ih, carries.evaluates, name]

/-- A record carries what its type makes of the values that its fields carry. -/
theorem Shell.carries_record (type : EntityType) {fields : List (String × Slot)} {entries : List (String × Value)}
    (each : List.Forall₂ Fills fields entries) :
    (Shell.record type fields).Carries (type.assemble (type.plan entries).flatten) := by
  refine ⟨promptFields_iff.mpr fun field member => ?_, ?_, fun lookup => ?_⟩
  · obtain ⟨value, carries⟩ := exists_carries_of_fills each member
    exact carries.prompt
  · rw [Shell.references_record, List.flatMap_eq_nil_iff]
    intro field planned
    obtain ⟨value, carries⟩ := exists_carries_of_fills each (EntityType.mem_of_mem_plan planned)
    exact carries.closed
  · have known : (fun field => named (field.1, some field.2)) = (some : String × Value → _) := rfl
    rw [Shell.evaluate, evaluateFields_of_fills lookup each, type.plan_map, ← List.map_flatten, List.map_map]
    change (collect ((type.plan entries).flatten.map fun field => named (field.1, some field.2))).map _ = _
    rw [known, collect_map_some, Option.map_some]

end Building

/-! ### Resolving them -/

/-- A machine that is about to come to a value without a look into the registry. -/
structure Machine.Carries (machine : Machine) (value : Value) : Prop where
  sound : machine.whole.Sound fun _ => True
  closed : machine.whole.stakes none = 0
  value : ∀ lookup, machine.whole.value? lookup = some value

theorem value?_surround_none {meanings : Lookup → Prop} {lookup : Lookup} {layers : List Layer} {task : Task}
    (whole : (surround layers task).Sound meanings) (absent : task.value? lookup = none) :
    (surround layers task).value? lookup = none := by
  induction layers generalizing task with
  | nil => exact absent
  | cons layer outer ih => exact ih whole (Layer.value?_around_none (sound_of_surround whole) absent)

/-- Without stakes there is no need for a look into the registry. -/
theorem Task.not_consults {task : Task} {owner : Option Key} (closed : task.stakes owner = 0) :
    ¬ Machine.Consults task := by
  intro consults
  unfold Machine.Consults at consults
  split at consults
  · simp [Node.references, pendings] at closed
  · simp at closed
  · exact consults

/-- What lies in layers has no stakes where the whole has none. -/
theorem stakes_of_surround {layers : List Layer} {task : Task} (closed : (surround layers task).stakes none = 0) :
    task.stakes (ownerWithin layers) = 0 := by
  rw [stakes_surround] at closed
  exact Multiset.le_zero.mp (closed ▸ Multiset.le_add_right _ _)

namespace Machine.Carries

variable {machine : Machine} {world : World} {after : Machine × World} {value : Value}

theorem of_quietly {task : Task} (closed : task.stakes none = 0) (known : ∀ lookup, task.value? lookup = some value)
    (quietly : Quietly (fun _ => True) task world after) :
    after.1.Carries value ∧ after.2.registry = world.registry :=
  ⟨⟨quietly.alike.sound, (quietly.alike.stakes none).trans closed,
    fun lookup => (quietly.alike.value lookup).trans (known lookup)⟩, quietly.calm.registry⟩

/-- Nothing comes of a machine that fails. -/
theorem not_error {error : ResolveError} (failing : machine.control = .finish (.error error)) :
    ¬ machine.Carries value := by
  rintro ⟨sound, -, known⟩
  rw [Machine.whole, failing] at sound
  have present := known fun _ => none
  rw [Machine.whole, failing] at present
  rw [value?_surround_none sound Task.value?_forever] at present
  cases present

/-- A step brings the machine nearer to its value and leaves the registry alone. -/
theorem step (carries : machine.Carries value) (step : machine.step world = some after) :
    after.1.Carries value ∧ after.2.registry = world.registry := by
  obtain ⟨sound, closed, known⟩ := carries
  cases step_steps step with
  | @poll operation task layers =>
    have free : ¬ Consults task := Task.not_consults (stakes_of_surround closed)
    exact of_quietly closed known (pollTask_quiet ⟨operation, .poll task, layers⟩ task world free sound)
  | @rest operation task layer layers =>
    exact of_quietly closed known (restIn_quiet ⟨operation, .rest task, layers⟩ layer task world sound)
  | @finish operation own layer layers =>
    have free : ∀ fetch, layer ≠ .inside (.fetching fetch) := by
      rintro fetch rfl
      have stakes : ((Layer.inside (.fetching fetch)).around (.node (.literal own) (.root .default))).stakes
          (ownerWithin layers) = 0 := stakes_of_surround closed
      simp [Layer.around, Frame.stakes] at stakes
    exact of_quietly closed known (finishIn_quiet ⟨operation, .finish (.ok own), layers⟩ layer own world free sound)
  | fail => exact absurd ⟨sound, closed, known⟩ (not_error rfl)

/-- The end that such a machine comes to. -/
theorem of_leads (carries : machine.Carries value) (leads : Machine.Leads (machine, world) after) :
    after.1.Carries value ∧ after.2.registry = world.registry := by
  induction leads with
  | refl => exact ⟨carries, rfl⟩
  | tail _ step ih =>
    have last := ih.1.step step
    exact ⟨last.1, last.2.trans ih.2⟩

/-- What a machine carries is what it is over with. -/
theorem eq_of_finish {operation : Nat} {result : Except ResolveError Value}
    (carries : Machine.Carries ⟨operation, .finish result, []⟩ value) : result = .ok value := by
  cases result with
  | error error => exact absurd carries (not_error rfl)
  | ok own =>
    have known : some own = some value := carries.value fun _ => none
    rw [Option.some.inj known]

end Machine.Carries

/-- A node that carries a value is resolved to it, whatever the configuration, on any registry, and leaves the registry
as it was. -/
theorem Node.Carries.returns {node : Node} {value : Value} (carries : node.Carries value) (config : Config)
    (registry : Registry) :
    ∃ world, Resolver.Returns config registry node (.ok value) world ∧ world.registry = registry := by
  have decided : ∀ key ∈ node.references, registry.decided key := fun key member =>
    absurd (carries.closed ▸ member) List.not_mem_nil
  have tidy : (World.initial registry).Tidy := fun id position member => nomatch member
  obtain ⟨result, later, leads, -, -⟩ := (Routine.settles_tree registry).1 node carries.prompt decided (.root config)
    (.start 0 (.node node (.root config))) (.initial registry) rfl tidy
  have start : (Machine.start 0 (.node node (.root config))).Carries value :=
    ⟨trivial, by simp [Machine.start, Machine.whole, surround, Control.task, carries.closed, pendings],
      carries.evaluates⟩
  obtain ⟨last, same⟩ := start.of_leads leads
  obtain rfl := last.eq_of_finish
  obtain ⟨fuel, run⟩ := leads.run rfl
  obtain ⟨world, closes, calm⟩ := Operation.close_spec (.resolve 0 config node (.initial registry)) (.ok value) later
  exact ⟨world, Resolver.returns_iff_comes.mpr (.done ⟨fuel, _, _, run, closes⟩), calm.registry.trans same⟩

end Blueprint
