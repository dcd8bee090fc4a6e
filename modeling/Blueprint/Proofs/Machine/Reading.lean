import Blueprint.Proofs.Carrying
/-! Reading what is complete. A reference to a complete entry is answered at once, for whomever it is followed, and
leaves the registry as it was but for the count of such answers; all other steps leave the registry alone. -/

namespace Blueprint

namespace Registry

/-- The registry after some more fetches that found the value there. -/
def counting (registry : Registry) (finds : Nat) : Registry :=
  { registry with hits := registry.hits + finds }

variable {registry : Registry}

theorem counting_counting (first second : Nat) :
    (registry.counting first).counting second = registry.counting (first + second) := by
  simp [counting, Nat.add_assoc]

/-- A fetch from a complete entry finds the value, whoever waits for it. -/
theorem arrive_complete {key : Key} {value : Value} (found : registry.get? key.type key = some value)
    (owner : Option Key) (waiter : Waiter) :
    registry.arrive key.type key owner waiter = (.found value, registry.counting 1) := by
  unfold get? at found
  simp only [Option.bind_eq_bind, Option.bind_eq_some_iff] at found
  obtain ⟨⟨_, payload, gate, queue⟩, present, stored, rfl, typed⟩ := found
  unfold arrive
  rw [if_neg (by simp), present]
  unfold asType at typed ⊢
  split at typed
  next same =>
    cases typed
    simp [same, counting]
  next => cases typed

end Registry

/-- Nothing is at stake but references to complete entries. -/
def Stakes.Complete (stakes : Stakes) (registry : Registry) : Prop :=
  ∀ stake ∈ stakes, ∃ key anchor, stake.2 = .pending key anchor ∧ (registry.get? key.type key).isSome

theorem Stakes.Complete.mono {stakes fewer : Stakes} {registry : Registry} (complete : stakes.Complete registry)
    (le : fewer ≤ stakes) : fewer.Complete registry :=
  fun stake member => complete stake (Multiset.mem_of_le le member)

/-- The references of a call are all that is at stake when it begins. -/
theorem Stakes.complete_pendings {registry : Registry} {owner : Option Key} {references : List Key} {anchor : Anchor}
    (complete : ∀ key ∈ references, (registry.get? key.type key).isSome) :
    Stakes.Complete (pendings owner references anchor) registry := by
  intro stake member
  obtain ⟨key, listed, rfl⟩ := mem_pendings.mp member
  exact ⟨key, anchor, rfl, complete key listed⟩

namespace Machine

variable {machine : Machine} {world : World} {result : Machine × World} {task : Task} {layers : List Layer}
  {contents : Contents} {roots : List Key} {others : Multiset Hold}

/-- In a step some references at stake are found complete, and nothing else is done to the registry. -/
structure Reads (stakes : Stakes) (world : World) (result : Machine × World) (finds : Nat) : Prop where
  fewer : result.1.whole.stakes none ≤ stakes
  counted : finds + (result.1.whole.stakes none).card = stakes.card
  registry : result.2.registry = world.registry.counting finds
  begun : result.2.begun = world.begun

theorem Reads.of_quietly {meanings : Lookup → Prop} (quietly : Quietly meanings task world result) :
    Reads (task.stakes none) world result 0 where
  fewer := (quietly.alike.stakes none).le
  counted := by rw [quietly.alike.stakes, Nat.zero_add]
  registry := quietly.calm.registry
  begun := quietly.calm.begun

/-- What the task in the middle of layers has at stake is at stake. -/
theorem complete_of_surround (complete : ((surround layers task).stakes none).Complete world.registry) :
    (task.stakes (ownerWithin layers)).Complete world.registry := by
  rw [stakes_surround] at complete
  exact complete.mono (Multiset.le_add_right _ _)

/-- A reference to a complete entry is answered at once. -/
theorem dereference_complete {type : EntityType} {name : String} {scope : Scope}
    (complete : ((surround machine.layers (.node (.reference type name) scope)).stakes none).Complete world.registry) :
    ∃ value, machine.dereference type name scope world =
      (machine.finish (.ok value), { world with registry := world.registry.counting 1, fresh := world.fresh + 1 }) := by
  obtain ⟨key, anchor, same, there⟩ := complete_of_surround complete
    (ownerWithin machine.layers, .pending (Node.keyOf type name) scope.anchor) (by simp [Node.references, pendings])
  cases same
  obtain ⟨value, found⟩ := Option.isSome_iff_exists.mp there
  have answer := Registry.arrive_complete found scope.owner ⟨world.fresh, machine.strands⟩
  refine ⟨value, ?_⟩
  unfold dereference
  simp only [World.take, World.arrive]
  rw [show type.typeName = (Node.keyOf type name).type from rfl, answer]

theorem dereference_reads (type : EntityType) (name : String) (scope : Scope)
    (complete : ((surround machine.layers (.node (.reference type name) scope)).stakes none).Complete world.registry) :
    Reads ((surround machine.layers (.node (.reference type name) scope)).stakes none) world
      (machine.dereference type name scope world) 1 := by
  obtain ⟨value, step⟩ := dereference_complete complete
  have stakes : (surround machine.layers (.node (.reference type name) scope)).stakes none =
      (ownerWithin machine.layers, .pending (Node.keyOf type name) scope.anchor) ::ₘ
        ((machine.finish (.ok value)).whole.stakes none) := by
    rw [finish_ok_whole, stakes_surround, stakes_surround]
    simp [Node.references, pendings]
  rw [step]
  refine ⟨?_, ?_, rfl, rfl⟩
  · rw [stakes]
    exact Multiset.le_cons_self _ _
  · rw [stakes, Multiset.card_cons, Nat.add_comm]

theorem pollTask_reads (sound : (surround machine.layers task).Sound contents.Meaning)
    (complete : ((surround machine.layers task).stakes none).Complete world.registry) :
    ∃ finds, Reads ((surround machine.layers task).stakes none) world (machine.pollTask task world) finds := by
  by_cases alone : ¬ Consults task
  · exact ⟨0, .of_quietly (machine.pollTask_quiet task world alone sound)⟩
  · rw [not_not] at alone
    unfold Consults at alone
    split at alone
    next type name scope => exact ⟨1, dereference_reads type name scope complete⟩
    next fetch ticket =>
      obtain ⟨_, _, same, _⟩ := complete_of_surround complete _ (Multiset.mem_singleton_self _)
      cases same
    next => exact absurd alone id

/-- What fails has no value. -/
theorem failing_value? {meanings : Lookup → Prop} {operation : Nat} {error : ResolveError} {lookup : Lookup}
    (sound : (Machine.whole ⟨operation, .finish (.error error), layers⟩).Sound meanings) :
    (Machine.whole ⟨operation, .finish (.error error), layers⟩).value? lookup = none :=
  value?_surround_none sound Task.value?_forever

/-- Every step of a machine that will come to a value reads, if only references to complete entries are at stake. -/
theorem step_reads {value : Value} {lookup : Lookup} (sound : machine.whole.Sound contents.Meaning)
    (known : machine.whole.value? lookup = some value)
    (complete : (machine.whole.stakes none).Complete world.registry) (step : machine.step world = some result) :
    ∃ finds, Reads (machine.whole.stakes none) world result finds := by
  cases step_steps step with
  | poll => exact pollTask_reads sound complete
  | @rest operation task layer layers =>
    exact ⟨0, .of_quietly (restIn_quiet ⟨operation, .rest task, layers⟩ layer task world sound)⟩
  | @finish operation own layer layers =>
    have free : ∀ fetch, layer ≠ .inside (.fetching fetch) := by
      rintro fetch rfl
      have inner : (((Layer.inside (.fetching fetch)).around (.node (.literal own) (.root .default))).stakes
        (ownerWithin layers)).Complete world.registry := complete_of_surround complete
      obtain ⟨_, _, same, _⟩ := inner (ownerWithin layers, .turn fetch) (by simp [Layer.around, Frame.stakes])
      cases same
    exact ⟨0, .of_quietly (finishIn_quiet ⟨operation, .finish (.ok own), layers⟩ layer own world free sound)⟩
  | fail =>
    rw [failing_value? sound] at known
    cases known

end Machine

end Blueprint
