import Blueprint.Proofs.Alone.Timing
/-! How long a resolution takes, alone, of a node whose references are all complete. It takes the time of a greedy
schedule at every collection, and it returns a value unless its limit of time is shorter than that. So a higher bound
on what may be in flight makes no resolution slower, and none that returns fail. -/

namespace Blueprint.System

section Resolving

variable {contents : Contents} {registry : Registry} {config : Config} {node : Node} {value : Value}

theorem beginning_onTime (config : Config) (known : (contents.evaluate node).isSome)
    (complete : ∀ key ∈ node.references, (registry.get? key.type key).isSome) :
    (Operation.resolve 0 config node (.initial registry)).task.OnTime contents
      (node.time config.effectiveConcurrency) (.initial registry) where
  timely := ⟨known, Stakes.complete_pendings complete, Task.packed_of_bare trivial⟩
  answers := ⟨List.nodup_nil, nofun⟩
  ends := Nat.zero_add _

variable (regular : (resting contents registry).Regular)
  (complete : ∀ key ∈ node.references, (registry.get? key.type key).isSome)

include regular complete

theorem Regular.now_of_returns {world : World} (returns : Resolver.Returns config registry node (.ok value) world) :
    world.now = node.time config.effectiveConcurrency := by
  have known := Option.isSome_of_eq_some (regular.evaluate_of_returns returns)
  exact (regular.beginning config node).now_of_comes (beginning_onTime config known complete)
    (Resolver.returns_iff_comes.mp returns)

/-- A value is returned within a limit of time if the node has it and does not take longer. -/
theorem Regular.returns_iff_in_time : (∃ world, Resolver.Returns config registry node (.ok value) world) ↔
    contents.evaluate node = some value ∧
      ∀ limit ∈ config.deadline, node.time config.effectiveConcurrency ≤ limit := by
  constructor
  · rintro ⟨world, returns⟩
    refine ⟨regular.evaluate_of_returns returns, fun limit set => ?_⟩
    rw [← regular.now_of_returns complete returns]
    have bound : { { config with deadline := none } with deadline := some limit } = config := by
      cases config
      cases set
      rfl
    obtain ⟨alarm, decided⟩ := @Regular.beginning_decided _ _ { config with deadline := none } node regular rfl limit
    rw [bound] at decided
    have comes := Resolver.returns_iff_comes.mp returns
    cases decided with
    | inTime free again early alike now =>
      obtain ⟨_, rfl⟩ := comes.unique again
      exact now.trans_le early
    | cut cut => cases (comes.unique cut).1
  · rintro ⟨has, enough⟩
    have limit : (Operation.resolve 0 config node (.initial registry)).limit? = config.deadline := by
      simp [Operation.limit?, Operation.resolve, World.initial, Function.comp_def]
    obtain ⟨own, world, comes, _⟩ := (regular.beginning config node).comes_of_limit
      (beginning_onTime config (Option.isSome_of_eq_some has) complete) (limit ▸ enough)
    have returns := Resolver.returns_iff_comes.mpr comes
    have same := has.symm.trans (regular.evaluate_of_returns returns)
    exact ⟨world, Option.some.inj same ▸ returns⟩

end Resolving

variable {system : System}

/-- A resolution that is alone and returns a value takes exactly the time of its node: nothing where something is
known or complete, a delay and what comes after it, the longer one of a key and its value, a greedy schedule in order
on as many slots as may be in flight, and for a record the longest of the fields that run side by side and then the
others one after another. A bound of zero counts as one. -/
theorem resolve_takes_node_time (reachable : system.Reachable) (idle : system.Idle) (config : Config) (limit : Nat)
    {node : Node} (complete : ∀ key ∈ node.references, (system.world.registry.get? key.type key).isSome)
    {value : Value} {world : World}
    (returns : Resolver.Returns (config.withMaxConcurrency limit) system.world.registry node (.ok value) world) :
    world.now = node.time (max limit 1) :=
  (reachable.regular.resting_of_idle idle).now_of_returns complete returns

/-- The sum of a number that is complete and three that take their time. -/
def waited : Node :=
  .nested (.record .number [("terms", .repeated [.nested (.delayed .number (.literal (.number 1)) 3),
    .reference .number "two", .nested (.delayed .number (.literal (.number 3)) 2),
    .nested (.delayed .number (.literal (.number 4)) 4)])])

def stocked : List Action :=
  [.register ⟨EntityType.number.typeName, "two"⟩ (.value (.number 2))]

theorem stocked_waited : (following stocked).Reachable ∧ (following stocked).Idle ∧
    (∀ key ∈ waited.references, ((following stocked).world.registry.get? key.type key).isSome) ∧
    (following stocked).registered.evaluate waited = some (.number 10) := by
  refine ⟨run_of_perform stocked (fun _ _ => trivial) rfl, fun process member => ?_, ?_, ?_⟩
  · cases (show process ∈ [] from member)
  · decide
  · rw [Contents.evaluate]
    have two : (following stocked).registered.valueOf [] (Node.keyOf .number "two") = some (.number 2) :=
      Contents.valueOf_of_value rfl
    generalize (following stocked).registered.valueOf [] = lookup at two ⊢
    change (collect [((collect [some (.number 1), lookup (Node.keyOf .number "two"), some (.number 3),
      some (.number 4)]).map Value.list).map (Prod.mk "terms")]).map EntityType.number.assemble = some (.number 10)
    rw [two]
    rfl

/-- Two numbers that take three and two milliseconds are waited for first, and then the last one. -/
theorem resolve_takes_node_time_waited : (following stocked).Reachable ∧ (following stocked).Idle ∧
    (∀ key ∈ waited.references, ((following stocked).world.registry.get? key.type key).isSome) ∧
    ∃ world, Resolver.Returns (Config.default.withMaxConcurrency 2) (following stocked).world.registry waited
      (.ok (.number 10)) world ∧ world.now = 6 := by
  obtain ⟨reachable, idle, complete, has⟩ := stocked_waited
  have limitless : (Config.default.withMaxConcurrency 2).deadline = none := rfl
  obtain ⟨world, returns⟩ := ((reachable.regular.resting_of_idle idle).returns_ok_iff limitless _).mpr has
  exact ⟨reachable, idle, complete, world, returns, resolve_takes_node_time reachable idle _ 2 complete returns⟩

/-- A higher bound on what may be in flight makes no resolution slower: what returns a value under one bound returns
the same value under a higher one, and not later, whatever else is configured. -/
theorem more_concurrency_not_slower (reachable : system.Reachable) (idle : system.Idle) (config : Config)
    {lower upper : Nat} (le : lower ≤ upper) {node : Node}
    (complete : ∀ key ∈ node.references, (system.world.registry.get? key.type key).isSome) {value : Value}
    {first : World}
    (returns : Resolver.Returns (config.withMaxConcurrency lower) system.world.registry node (.ok value) first) :
    ∃ second, Resolver.Returns (config.withMaxConcurrency upper) system.world.registry node (.ok value) second ∧
      second.now ≤ first.now := by
  have regular := reachable.regular.resting_of_idle idle
  have shorter : node.time (max upper 1) ≤ node.time (max lower 1) :=
    (time_mono (Nat.le_max_right _ _) (max_le_max_right 1 le)).1 node
  obtain ⟨has, enough⟩ := (regular.returns_iff_in_time complete).mp ⟨first, returns⟩
  have soon : ∀ limit ∈ (config.withMaxConcurrency upper).deadline, node.time (max upper 1) ≤ limit :=
    fun limit set => shorter.trans (enough limit set)
  obtain ⟨second, again⟩ := (regular.returns_iff_in_time complete).mpr ⟨has, soon⟩
  refine ⟨second, again, ?_⟩
  rw [regular.now_of_returns complete again, regular.now_of_returns complete returns]
  exact shorter

theorem more_concurrency_not_slower_waited : (following stocked).Reachable ∧ (following stocked).Idle ∧
    (∀ key ∈ waited.references, ((following stocked).world.registry.get? key.type key).isSome) ∧
    ∃ first, Resolver.Returns (Config.default.withMaxConcurrency 1) (following stocked).world.registry waited
      (.ok (.number 10)) first ∧ first.now = 9 ∧
    ∃ second, Resolver.Returns (Config.default.withMaxConcurrency 3) (following stocked).world.registry waited
      (.ok (.number 10)) second ∧ second.now ≤ 9 := by
  obtain ⟨reachable, idle, complete, has⟩ := stocked_waited
  have regular := reachable.regular.resting_of_idle idle
  have limitless : (Config.default.withMaxConcurrency 1).deadline = none := rfl
  obtain ⟨first, returns⟩ := (regular.returns_ok_iff limitless _).mpr has
  have nine : first.now = 9 := regular.now_of_returns complete returns
  obtain ⟨second, again, sooner⟩ := more_concurrency_not_slower reachable idle _ (by decide : 1 ≤ 3) complete returns
  exact ⟨reachable, idle, complete, first, returns, nine, second, again, nine ▸ sooner⟩

end Blueprint.System
