import Blueprint.Proofs.System.Execution
/-! No deadlock and no endless recursion. Entries do not wait for one another in a circle, initializations do not
lie deeper in one another than there are deferred entries, and what reaches no stalled shell comes to an end. -/

namespace Blueprint.System

variable {system : System}

/-- Among the entries of a system there are none each of which waits for another one of them. -/
theorem Orderly.not_in_circle (orderly : system.Orderly) {keys : Key → Prop}
    (circle : ∀ key, keys key → ∃ next, keys next ∧ system.Awaits key next) (key : Key) : ¬ keys key := by
  refine nowhere_of_leads orderly.acyclic system.registered.deferred (fun key inside => ?_) (fun key inside => ?_) key
  · obtain ⟨next, _, awaits⟩ := circle key inside
    obtain ⟨node, found, _⟩ := orderly.refers awaits
    exact Contents.mem_deferred (Contents.node?_eq_some_iff.mp found)
  · obtain ⟨next, among, awaits⟩ := circle key inside
    exact ⟨next, .single awaits, among⟩

/-- There is no deadlock and no endless recursion. In every state that can be reached, whatever the references
between entries, no entries are such that on behalf of each of them somebody waits for another one of them, or
initializes it: so the branches of an operation never wait for entries whose initializers wait for one another.
Initializations lie in one another no deeper than there are deferred entries. And however the operations go on,
interleaved in whatever way, while others fail, run out of time, are given up or stand still, each one whose call
reaches no stalled shell, through its own tree and through references, returns a value or an error after
finitely many steps, unless its caller gives it up. -/
theorem Reachable.no_deadlock (reachable : system.Reachable) :
    (∀ keys : Key → Prop, (∀ key, keys key → ∃ next, keys next ∧ system.Awaits key next) → ∀ key, ¬ keys key) ∧
      (∀ process ∈ system.processes, process.phase.task.nesting ≤ system.registered.deferred.length) ∧
      ∀ (execution : Execution system) (id n : Nat) (call : Call) (phase : Phase),
        (execution.states n).processes[id]? = some ⟨call, phase⟩ → phase ≠ .dropped →
        (∀ m, execution.actions m ≠ .drop id) → (∀ m, (execution.states m).registered.Flowing call) →
        ∃ m result, (execution.states m).phase? id = some (.returned result) := by
  have orderly := reachable.orderly
  refine ⟨fun keys circle => orderly.not_in_circle circle, fun process member => orderly.nesting_le member, ?_⟩
  intro execution id n call phase present taken kept flowing
  exact execution.returns_of_flowing reachable present taken kept flowing

/-- A deferred text. -/
def contested : List Action :=
  [.register ⟨EntityType.text.typeName, "motto"⟩
    (.deferred (.node EntityType.text.typeName (.literal (.text "onward"))))]

/-- Two operations that refer to it. The second one comes while the first one initializes it, and waits. -/
def together : List Action :=
  [.start (.resolve .default (.reference .text "motto")), .start (.resolve .default (.reference .text "motto")),
    .step 0, .step 1, .step 1, .step 0, .step 0, .step 0, .look 1, .step 1, .step 1]

theorem contested_flows {contents : Contents}
    (same : contents = [(⟨EntityType.text.typeName, "motto"⟩,
      .deferred (.node EntityType.text.typeName (.literal (.text "onward"))))]) :
    contents.Flowing (.resolve .default (.reference .text "motto")) := by
  refine ⟨trivial, fun key _ node found => ?_⟩
  have listed := OrderedMap.mem_of_get? (Contents.node?_eq_some_iff.mp found)
  rw [same, List.mem_singleton] at listed
  cases listed
  trivial

theorem no_deadlock_contested : ∃ execution : Execution (following contested),
    (∃ operation, (execution.states 5).phase? 1 = some (.resting operation)) ∧
      ∃ m result, (execution.states m).phase? 1 = some (.returned result) := by
  have reachable : (following contested).Reachable := run_of_perform contested (fun _ _ => trivial) rfl
  have result : (following contested).perform together = some (following (contested ++ together)) := rfl
  have ended : ∀ process ∈ (following (contested ++ together)).processes, ¬ process.phase.Open := by
    have phases : (following (contested ++ together)).processes.map Process.phase =
        List.replicate 2 (.returned (.ok (.text "onward"))) := rfl
    intro process member
    have same := List.eq_of_mem_replicate (phases ▸ List.mem_map_of_mem (f := Process.phase) member)
    rw [same]
    exact fun running => running
  let execution := Execution.idling result ended rfl
  obtain ⟨_, _, returns⟩ := reachable.no_deadlock
  refine ⟨execution, ⟨_, rfl⟩, returns execution 1 2 _ _ rfl ?_ ?_ fun m => ?_⟩
  · simp
  · exact idlingAction_all (· ≠ .drop 1) (by simp [together]) (by simp)
  · exact contested_flows (execution.registered_eq (idlingAction_all Quiet (by simp [together, Quiet]) trivial) m)

end Blueprint.System
