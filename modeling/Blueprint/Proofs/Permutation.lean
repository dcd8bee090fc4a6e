import Blueprint.Proofs.Alone.Returning
import Blueprint.Proofs.Guise.Alone
import Blueprint.Proofs.Registration
/-! The order of registrations does not matter, and later ones take no value away. Registries that have the same
entries under the same keys are alike, and what is alike a resolution cannot tell apart. -/

namespace Blueprint

namespace Guise

/-- Nothing differs but the order of keys. -/
def plain : Guise where
  number := id
  config := id
  own _ := true
  told := Eq
  injective same := same
  own_number _ := rfl
  concurrency _ := rfl
  tells := @eq_tells
  spans _ _ _ same := by rw [same]; rfl

theorem plain_aligned : plain.Aligned 0 := ⟨fun _ => rfl, fun _ => rfl⟩

@[simp] theorem plain_entry (entry : Entry) : plain.entry entry = entry := entry_eq (fun _ => rfl) entry

end Guise

namespace Registry

variable {one two : Registry}

/-- With distinct keys the same entries are there, in some order. -/
theorem entries_perm (same : ∀ key, two.entry? key = one.entry? key) (distinct : (one.entries.map (·.1)).Nodup)
    (apart : (two.entries.map (·.1)).Nodup) : two.entries.Perm one.entries := by
  refine (List.perm_ext_iff_of_nodup (List.Nodup.of_map _ apart) (List.Nodup.of_map _ distinct)).mpr
    fun ⟨key, entry⟩ => ?_
  have found : two.entry? key = some entry ↔ one.entry? key = some entry := by rw [same key]
  exact ⟨fun member => OrderedMap.mem_of_get? (found.mp (OrderedMap.get?_of_mem apart member)),
    fun member => OrderedMap.mem_of_get? (found.mpr (OrderedMap.get?_of_mem distinct member))⟩

theorem stats_of_perm (same : two.entries.Perm one.entries) (waits : two.waits = one.waits)
    (hits : two.hits = one.hits) (initializations : two.initializations = one.initializations) :
    two.stats = one.stats := by
  have completed : two.completed = one.completed := (same.filter _).length_eq
  rw [stats, stats, size, size, same.length_eq, completed, waits, hits, initializations]

end Registry

/-- The registrations of some contents, in order. -/
def Contents.registrations (contents : Contents) : List Action :=
  contents.map fun item => .register item.1 item.2

namespace System

variable {before between after system : System}

/-- All that registrations do to a registry and to what goes on there. -/
structure Adds (before : System) (more : Contents) (after : System) : Prop where
  entries : ∀ key, after.world.registry.entry? key =
    (before.world.registry.entry? key).or ((more.origin? key).map (Origin.entry key))
  waits : after.world.registry.waits = before.world.registry.waits
  hits : after.world.registry.hits = before.world.registry.hits
  initializations : after.world.registry.initializations = before.world.registry.initializations
  processes : after.processes = before.processes
  wider : before.registered.Extends after.registered

theorem Adds.trans {more further : Contents} (first : before.Adds more between) (second : between.Adds further after) :
    before.Adds (more ++ further) after where
  entries key := by
    have both : (more ++ further).origin? key = (more.origin? key).or (further.origin? key) :=
      OrderedMap.get?_append more further key
    rw [second.entries, first.entries, both, Option.or_assoc, Option.map_or]
  waits := second.waits.trans first.waits
  hits := second.hits.trans first.hits
  initializations := second.initializations.trans first.initializations
  processes := second.processes.trans first.processes
  wider := first.wider.trans second.wider

/-- One registration, accepted or not. -/
theorem act?_register (system : System) (key : Key) (origin : Origin) :
    ∃ after, system.act? (.register key origin) = some after ∧ system.Adds [(key, origin)] after := by
  by_cases taken : system.world.registry.contains key
  · refine ⟨_, (act?_register_taken taken origin).2, ⟨fun other => ?_, rfl, rfl, rfl, rfl, .refl _⟩⟩
    show system.world.registry.entry? other = _
    rw [Contents.origin?, OrderedMap.get?_cons]
    by_cases same : key = other
    · obtain ⟨entry, found⟩ := Option.isSome_iff_exists.mp taken
      rw [← same, found]
      rfl
    · rw [if_neg same]
      simp
  · refine ⟨_, (act?_register_free taken origin).2, ?_⟩
    have accepted : system.world.registry.register key (origin.entry key) =
        .ok { system.world.registry with entries := system.world.registry.entries ++ [(key, origin.entry key)] } :=
      if_neg taken
    simp only [World.register, accepted]
    refine ⟨fun other => ?_, rfl, rfl, rfl, rfl, Contents.extends_append _ _⟩
    show OrderedMap.get? (system.world.registry.entries ++ [(key, origin.entry key)]) other = _
    rw [OrderedMap.get?_append, Contents.origin?, OrderedMap.get?_cons, OrderedMap.get?_cons]
    by_cases same : key = other
    · simp [same, Registry.entry?]
    · simp [same, Registry.entry?]

/-- Registrations are always possible, one after another. -/
theorem perform_registrations (system : System) (more : Contents) :
    ∃ after, system.perform more.registrations = some after ∧ system.Adds more after := by
  induction more generalizing system with
  | nil => exact ⟨system, rfl, ⟨fun key => by simp [Contents.origin?], rfl, rfl, rfl, rfl, .refl _⟩⟩
  | cons item rest ih =>
    obtain ⟨between, first, one⟩ := system.act?_register item.1 item.2
    obtain ⟨after, second, others⟩ := ih between
    exact ⟨after, Option.bind_eq_some_iff.mpr ⟨between, first, second⟩, one.trans others⟩

theorem following_registrations (contents : Contents) :
    (following contents.registrations).Reachable ∧ initial.Adds contents (following contents.registrations) := by
  obtain ⟨after, result, adds⟩ := initial.perform_registrations contents
  rw [following, result]
  exact ⟨run_of_perform _ (fun _ _ => trivial) result, adds⟩

/-- Registrations leave nobody at work. -/
theorem Adds.idle {more : Contents} (adds : system.Adds more after) (idle : system.Idle) : after.Idle :=
  fun process member => idle process (adds.processes ▸ member)

/-- After the same registrations in another order a registry is the same but for the order of its keys. -/
theorem alike_of_perm {one two : Contents} (same : one.Perm two) (distinct : (one.map (·.1)).Nodup) :
    Registry.Alike .plain (following one.registrations).world.registry
      (following two.registrations).world.registry := by
  have first := (following_registrations one).2
  have second := (following_registrations two).2
  refine ⟨fun key => ?_, second.waits.trans first.waits.symm, second.hits.trans first.hits.symm,
    second.initializations.trans first.initializations.symm⟩
  rw [first.entries, second.entries, Contents.origin?, Contents.origin?, OrderedMap.get?_perm distinct same key]
  simp [funext Guise.plain_entry]

/-- The keys of a registry that a resolution leaves are still distinct. -/
theorem Regular.distinct_of_returns {contents : Contents} {registry : Registry} {config : Config} {node : Node}
    {result : Except ResolveError Value} {world : World} (regular : (resting contents registry).Regular)
    (returns : Resolver.Returns config registry node result world) :
    (world.registry.entries.map (·.1)).Nodup := by
  have ledger := ((regular.returned returns).regular (regular.beginning config node)).orderly.ledger
  exact ledger.keys ▸ ledger.distinct

/-- What is alike a resolution cannot tell apart: it returns the same from both, and leaves what is alike again. -/
theorem returns_of_alike {one two : Registry} {config : Config} {node : Node} {result : Except ResolveError Value}
    {world : World} (alike : Registry.Alike .plain one two) (returns : Resolver.Returns config one node result world) :
    ∃ other, Resolver.Returns config two node result other ∧ World.Alike .plain 0 world other := by
  have begins : World.Alike .plain 0 (.initial one) (.initial two) := ⟨alike, rfl, rfl, rfl, rfl, rfl, rfl⟩
  obtain ⟨other, comes, worlds⟩ := begins.comes Guise.plain_aligned (Resolver.returns_iff_comes.mp returns)
  have same : Guise.plain.operation (Operation.resolve 0 config node (.initial one)) =
      Operation.resolve 0 config node (.initial two) := by
    obtain ⟨limit, deadline, spans⟩ := config
    cases deadline <;> rfl
  exact ⟨other, Resolver.returns_iff_comes.mpr (same ▸ comes), worlds⟩

/-- The order of registrations is irrelevant, and further registrations are harmless. After the same registrations in
another order a resolution returns the same, and leaves the same figures and the same entries. And a resolution that
returned a value before more was registered returns it afterwards, if nothing limits its time. -/
theorem registrations_commute_and_extend :
    (∀ {one two : Contents}, one.Perm two → (one.map (·.1)).Nodup → ∀ (config : Config) (node : Node)
        (result : Except ResolveError Value) (world : World),
      Resolver.Returns config (following one.registrations).world.registry node result world →
      ∃ other, Resolver.Returns config (following two.registrations).world.registry node result other ∧
        other.registry.stats = world.registry.stats ∧
        ∀ key, other.registry.entry? key = world.registry.entry? key) ∧
    ∀ {before after : System} {more : Contents}, before.Reachable → before.Idle →
      before.perform more.registrations = some after → ∀ (config other : Config) (node : Node) (value : Value)
        (world : World), Resolver.Returns config before.world.registry node (.ok value) world → other.deadline = none →
      ∃ later, Resolver.Returns other after.world.registry node (.ok value) later := by
  constructor
  · intro one two same distinct config node result world returns
    have nobody : initial.Idle := fun process member => nomatch member
    obtain ⟨first, some⟩ := following_registrations one
    obtain ⟨second, others⟩ := following_registrations two
    obtain ⟨other, again, worlds⟩ := returns_of_alike (alike_of_perm same distinct) returns
    have entries : ∀ key, other.registry.entry? key = world.registry.entry? key := fun key => by
      rw [worlds.registry.entries, funext Guise.plain_entry, Option.map_id']
    have keys := (first.regular.resting_of_idle (some.idle nobody)).distinct_of_returns returns
    have places := (second.regular.resting_of_idle (others.idle nobody)).distinct_of_returns again
    exact ⟨other, again, Registry.stats_of_perm (Registry.entries_perm entries keys places) worlds.registry.waits
      worlds.registry.hits worlds.registry.initializations, entries⟩
  · intro before after more reachable idle result config other node value world returns endless
    obtain ⟨own, performed, adds⟩ := before.perform_registrations more
    obtain rfl : own = after := Option.some.inj (performed.symm.trans result)
    have later : own.Reachable := (run_of_perform _ (fun _ _ => trivial) performed).reachable reachable
    have has := (reachable.regular.resting_of_idle idle).evaluate_of_returns returns
    exact ((later.regular.resting_of_idle (adds.idle idle)).returns_ok_iff endless value).mpr
      (node.evaluate_mono adds.wider.valueOf value has)

/-- A deferred text that refers to one that is registered after it. -/
def forward : Contents :=
  [(Node.keyOf .text "greeting", .deferred (.node EntityType.text.typeName (.reference .text "subject"))),
    (Node.keyOf .text "subject", .value (.text "world"))]

/-- A value, and a text that refers to itself. -/
def afterthought : Contents :=
  [(Node.keyOf .text "aside", .value (.text "by the way")),
    (Node.keyOf .text "loop", .deferred (.node EntityType.text.typeName (.reference .text "loop")))]

theorem registrations_commute_and_extend_forward :
    (forward.Perm forward.reverse ∧ (forward.map (·.1)).Nodup) ∧
      (∃ other, Resolver.Returns .default (following (Contents.registrations forward.reverse)).world.registry
        (.reference .text "greeting") (.ok (.text "world")) other ∧ other.registry.stats = ⟨2, 2, 1, 1, 0⟩) ∧
      ∃ later, Resolver.Returns .default (following (Contents.registrations (forward ++ afterthought))).world.registry
        (.reference .text "greeting") (.ok (.text "world")) later := by
  have same : forward.Perm forward.reverse := forward.reverse_perm.symm
  have distinct : (forward.map (·.1)).Nodup := by decide
  have reachable : (following forward.registrations).Reachable :=
    run_of_perform forward.registrations (fun _ _ => trivial) rfl
  have idle : (following forward.registrations).Idle := fun process member => nomatch member
  obtain ⟨registry, figures, fuel, resolved⟩ : ∃ registry : Registry, registry.stats = ⟨2, 2, 1, 1, 0⟩ ∧ ∃ fuel,
      Resolver.resolve? fuel .default (following forward.registrations).world.registry (.reference .text "greeting") =
        some (.ok (.text "world"), registry) := ⟨_, rfl, 20, rfl⟩
  obtain ⟨world, returns, rfl⟩ := Resolver.returns_iff_resolve?.mpr ⟨fuel, resolved⟩
  have both := registrations_commute_and_extend
  obtain ⟨other, again, kept, _⟩ := both.1 same distinct .default _ _ world returns
  have extended : (following forward.registrations).perform afterthought.registrations =
      some (following (Contents.registrations (forward ++ afterthought))) := rfl
  exact ⟨⟨same, distinct⟩, ⟨other, again, kept.trans figures⟩,
    both.2 reachable idle extended .default .default _ _ world returns rfl⟩

end System

end Blueprint
