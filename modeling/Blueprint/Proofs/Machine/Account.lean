import Blueprint.Proofs.Ledger
import Blueprint.Proofs.Machine.Quiet
import Blueprint.Proofs.Task.Lawful
/-! The steps at which a machine turns to the registry. Each enters or strikes out claims so that the
ledger agrees with the task again, keeps the stakes lawful and the value of the task, and begins no
initialization of an entry that is complete. -/

namespace Blueprint

namespace Registry

variable {registry : Registry} {type : TypeName} {key : Key}

theorem get?_congr {first second : Registry} (same : first.entry? key = second.entry? key) :
    first.get? type key = second.get? type key := by
  rw [get?, get?, same]

theorem get?_unlink (owner : Option Key) (target : Key) :
    (registry.unlink owner target).get? type key = registry.get? type key := by
  refine get?_congr ?_
  rw [Registry.entry?, unlink_entries, Registry.entry?]

/-- What does not touch the values of entries does not touch what a reader finds. -/
theorem get?_modify (target : Key) (change : Entry → Entry)
    (kept : ∀ entry, (change entry).value = entry.value) :
    (registry.modify target change).get? type key = registry.get? type key := by
  unfold get?
  rw [entry?_modify]
  split
  next same =>
    subst same
    cases registry.entry? key with
    | none => rfl
    | some entry => simp [kept]
  next => rfl

theorem get?_beginTurn (target : Key) : (registry.beginTurn target).get? type key = registry.get? type key :=
  get?_modify target (fun entry => { entry with gate := .held }) fun _ => rfl

theorem get?_release (target : Key) : (registry.release target).2.get? type key = registry.get? type key := by
  unfold release
  split <;> exact get?_modify _ _ fun _ => rfl

theorem get?_withdraw (target : Key) (ticket : Nat) :
    (registry.withdraw target ticket).2.get? type key = registry.get? type key := by
  unfold withdraw
  split
  · exact get?_release target
  · exact get?_modify _ _ fun _ => rfl

theorem get?_arrive (target : Key) (owner : Option Key) (waiter : Waiter) :
    (registry.arrive target.type target owner waiter).2.get? type key = registry.get? type key := by
  have linking : ∀ linked, registry.link owner target = .ok linked →
      linked.get? type key = registry.get? type key := fun linked accepted =>
    get?_congr (by rw [Registry.entry?, link_entries accepted, Registry.entry?])
  have arriving := arrive_arriving registry target.type target owner waiter
  generalize registry.arrive target.type target owner waiter = outcome at arriving ⊢
  cases arriving with
  | refused | found | mistyped => rfl
  | turn _ accepted => exact (get?_beginTurn target).trans (linking _ accepted)
  | queued _ accepted =>
    exact (get?_modify target (fun entry => { entry with queue := entry.queue ++ [waiter] })
      fun _ => rfl).trans (linking _ accepted)

theorem get?_resume (target : Key) (ticket : Nat) :
    (registry.resume target.type target ticket).2.get? type key = registry.get? type key := by
  unfold resume
  split
  · rfl
  · split <;> rfl
  · split
    · exact get?_beginTurn target
    · rfl

theorem get?_settle_other {target : Key} {stored : Stored} (different : key ≠ target) :
    (registry.settle target stored).2.get? type key = registry.get? type key := by
  refine get?_congr ?_
  rw [settle, entry?_modify_other _ _ _ different]

theorem get?_settle {entry : Entry} (found : registry.entry? key = some entry) (value : Value) :
    (registry.settle key ⟨key.type, value⟩).2.get? key.type key = some value := by
  have changed : Registry.entry? (registry.settle key ⟨key.type, value⟩).2 key =
      some (.complete ⟨key.type, value⟩) := by
    rw [settle, entry?_modify_self, found, Option.map_some]
  simp [get?, changed, Entry.complete, asType, Except.toOption]

end Registry

/-- What is stored stays, and only entries that are not complete begin to be initialized. -/
structure World.Goes (before after : World) : Prop where
  stored : ∀ key value, before.registry.get? key.type key = some value →
    after.registry.get? key.type key = some value
  begun : ∃ keys, after.begun = before.begun ++ keys ∧
    ∀ key ∈ keys, before.registry.get? key.type key = none

namespace World.Goes

variable {first second third : World}

theorem of_begun (stored : ∀ key value, first.registry.get? key.type key = some value →
    second.registry.get? key.type key = some value) (begun : second.begun = first.begun) :
    first.Goes second :=
  ⟨stored, [], by simp [begun], by simp⟩

theorem of_calm (calm : first.Calm second) : first.Goes second :=
  .of_begun (fun key value found => by rwa [calm.registry]) calm.begun

theorem trans (left : first.Goes second) (right : second.Goes third) : first.Goes third := by
  obtain ⟨earlier, one, fresh⟩ := left.begun
  obtain ⟨later, two, fresher⟩ := right.begun
  refine ⟨fun key value found => right.stored key value (left.stored key value found),
    earlier ++ later, by rw [two, one, List.append_assoc], fun key member => ?_⟩
  rcases List.mem_append.mp member with old | new
  · exact fresh key old
  · cases found : first.registry.get? key.type key with
    | none => rfl
    | some value => exact absurd (left.stored key value found) (by simp [fresher key new])

theorem wakeAll_registry (world : World) (waiters : List Waiter) :
    (world.wakeAll waiters).registry = world.registry :=
  (World.Calm.wakeAll world waiters).registry

/-- A change of the registry that keeps what is stored, and the waking that follows. -/
theorem of_registry {world : World} {registry : Registry} (waiters : List Waiter)
    (kept : ∀ key value, world.registry.get? key.type key = some value →
      registry.get? key.type key = some value) :
    world.Goes ({ world with registry }.wakeAll waiters) := by
  have calm := World.Calm.wakeAll { world with registry } waiters
  exact .of_begun (fun key value found => by rw [calm.registry]; exact kept key value found) calm.begun

theorem unlink (world : World) (owner : Option Key) (key : Key) : world.Goes (world.unlink owner key) :=
  .of_begun (fun _ _ found => (Registry.get?_unlink owner key).trans found) rfl

theorem release (world : World) (key : Key) : world.Goes (world.release key) :=
  of_registry _ fun _ _ found => (Registry.get?_release key).trans found

theorem withdraw (world : World) (key : Key) (ticket : Nat) : world.Goes (world.withdraw key ticket) :=
  of_registry _ fun _ _ found => (Registry.get?_withdraw key ticket).trans found

end World.Goes

/-- What has not started claims nothing. -/
theorem Task.Unstarted.holds {task : Task} (unstarted : task.Unstarted) (owner : Option Key) :
    Stakes.holds (task.stakes owner) = 0 := by
  unfold Task.Unstarted at unstarted
  split at unstarted
  next => simp
  next parts =>
    rw [Task.stakes_join]
    induction parts with
    | nil => simp
    | cons part rest ih =>
      obtain ⟨node, scope, rfl⟩ := unstarted part List.mem_cons_self
      simpa using ih fun other member => unstarted other (List.mem_cons_of_mem _ member)
  next => exact absurd unstarted id

theorem holds_queued {owner : Option Key} {elements : List (Nat × Task)}
    (unstarted : ∀ element ∈ elements, element.2.Unstarted) :
    Stakes.holds (stakesOfElements owner elements) = 0 := by
  induction elements with
  | nil => simp
  | cons element rest ih =>
    simp [(unstarted element List.mem_cons_self).holds,
      ih fun other member => unstarted other (List.mem_cons_of_mem _ member)]

/-- The claims of what was dropped are struck out. -/
structure World.Struck (contents : Contents) (others : Multiset Hold) (before after : World) : Prop where
  ledger : Ledger contents after.registry after.fresh others
  goes : before.Goes after

namespace World.Struck

variable {contents : Contents} {others : Multiset Hold} {first second third : World}

theorem refl {world : World} (ledger : Ledger contents world.registry world.fresh others) :
    World.Struck contents others world world :=
  ⟨ledger, .of_calm (.refl world)⟩

theorem trans {between : Multiset Hold} (left : World.Struck contents between first second)
    (right : World.Struck contents others second third) : World.Struck contents others first third :=
  ⟨right.ledger, left.goes.trans right.goes⟩

theorem calm (struck : World.Struck contents others first second) (calm : second.Calm third) :
    World.Struck contents others first third :=
  ⟨calm.registry ▸ struck.ledger.mono calm.fresh, struck.goes.trans (.of_calm calm)⟩

variable {world : World} {owner : Option Key} {key : Key}

theorem wakeAll_fresh (world : World) (waiters : List Waiter) :
    (world.wakeAll waiters).fresh = world.fresh := by
  induction waiters generalizing world with
  | nil => rfl
  | cons waiter rest ih => exact (ih _).trans rfl

theorem release (ledger : Ledger contents world.registry world.fresh (⟨owner, key, none⟩ ::ₘ others)) :
    World.Struck contents others world ((world.release key).unlink owner key) := by
  refine ⟨?_, (World.Goes.release world key).trans (.unlink _ owner key)⟩
  have struck := ledger.release
  simp only [World.unlink, World.release, World.Goes.wakeAll_registry, wakeAll_fresh]
  exact struck

theorem withdraw {ticket : Nat}
    (ledger : Ledger contents world.registry world.fresh (⟨owner, key, some ticket⟩ ::ₘ others)) :
    World.Struck contents others world ((world.withdraw key ticket).unlink owner key) := by
  refine ⟨?_, (World.Goes.withdraw world key ticket).trans (.unlink _ owner key)⟩
  have struck := ledger.withdraw
  simp only [World.unlink, World.withdraw, World.Goes.wakeAll_registry, wakeAll_fresh]
  exact struck

end World.Struck

/-- Stakes held by scopes that know on whose behalf. -/
def Stakes.Anchored (stakes : Stakes) : Prop :=
  ∀ stake ∈ stakes, stake.2.anchor.owner = stake.1

theorem Stakes.anchored_add {first second : Stakes} :
    Stakes.Anchored (first + second) ↔ first.Anchored ∧ second.Anchored := by
  simp only [Anchored, Multiset.mem_add, or_imp, forall_and]

theorem Stakes.Lawful.anchored {contents : Contents} {roots : List Key} {stakes : Stakes}
    (lawful : Stakes.Lawful contents roots stakes) : stakes.Anchored :=
  fun stake member => (lawful stake member).anchored

section Cancel

variable {contents : Contents} {meanings : Lookup → Prop}

/-- Dropping a task strikes out its claims, whatever others claim. -/
def Cancels (contents : Contents) (meanings : Lookup → Prop) (task : Task) : Prop :=
  ∀ (owner : Option Key) (world : World) (others : Multiset Hold), task.Sound meanings →
    Stakes.Anchored (task.stakes owner) →
    Ledger contents world.registry world.fresh (Stakes.holds (task.stakes owner) + others) →
      World.Struck contents others world (world.cancel task)

theorem cancelParts_struck {parts : List (Part Task)}
    (each : ∀ task, .running task ∈ parts → Cancels contents meanings task) (owner : Option Key)
    (world : World) (others : Multiset Hold) (sound : SoundParts meanings parts)
    (anchored : Stakes.Anchored (stakesOfParts owner parts))
    (ledger : Ledger contents world.registry world.fresh
      (Stakes.holds (stakesOfParts owner parts) + others)) :
    World.Struck contents others world (world.cancelParts parts) := by
  induction parts generalizing world others with
  | nil => exact .refl (by simpa using ledger)
  | cons part rest ih =>
    have later := ih fun task member => each task (List.mem_cons_of_mem _ member)
    cases part with
    | done value =>
      exact later world others (by simpa using sound) (by simpa using anchored) (by simpa using ledger)
    | running task =>
      rw [soundParts_running] at sound
      rw [stakesOfParts_running] at anchored ledger
      rw [Stakes.anchored_add] at anchored
      rw [Stakes.holds_add, add_comm (Stakes.holds (task.stakes owner)), add_assoc] at ledger
      have first := later world _ sound.2 anchored.2 ledger
      exact first.trans (each task List.mem_cons_self owner _ others sound.1 anchored.1 first.ledger)

theorem cancelElements_struck {elements : List (Nat × Task)}
    (each : ∀ element ∈ elements, Cancels contents meanings element.2) (owner : Option Key)
    (world : World) (others : Multiset Hold) (sound : SoundElements meanings elements)
    (anchored : Stakes.Anchored (stakesOfElements owner elements))
    (ledger : Ledger contents world.registry world.fresh
      (Stakes.holds (stakesOfElements owner elements) + others)) :
    World.Struck contents others world (world.cancelElements elements) := by
  induction elements generalizing world others with
  | nil => exact .refl (by simpa using ledger)
  | cons element rest ih =>
    rw [soundElements_iff] at sound
    rw [stakesOfElements_cons] at anchored ledger
    rw [Stakes.anchored_add] at anchored
    rw [Stakes.holds_add, add_assoc] at ledger
    have first := each element List.mem_cons_self owner world _ (sound element List.mem_cons_self)
      anchored.1 ledger
    refine first.trans (ih (fun other member => each other (List.mem_cons_of_mem _ member)) _ others
      (soundElements_iff.mpr fun other member => sound other (List.mem_cons_of_mem _ member))
      anchored.2 first.ledger)

theorem cancel_struck (task : Task) : Cancels contents meanings task := by
  induction task using Task.induction with
  | node | shell | variant | field | forever =>
    exact fun owner world others _ _ ledger => .refl (by simpa using ledger)
  | delay due timer next ih =>
    intro owner world others sound _ ledger
    rw [Task.stakes_delay, Task.Unstarted.holds ((Task.sound_delay due timer next).mp sound)] at ledger
    exact (World.Struck.refl (by simpa using ledger)).calm (.dropTimer world timer)
  | waiting fetch ticket =>
    intro owner world others _ anchored ledger
    have own : fetch.scope.owner = owner := anchored _ (Multiset.mem_singleton_self _)
    rw [World.cancel, own]
    exact .withdraw (by simpa using ledger)
  | inside frame task ih =>
    intro owner world others sound anchored ledger
    rw [Task.sound_inside] at sound
    rw [Task.stakes_inside] at anchored ledger
    rw [Stakes.anchored_add] at anchored
    rw [Stakes.holds_add] at ledger
    cases frame with
    | fetching fetch =>
      have own : fetch.scope.owner = owner := anchored.1 _ (Multiset.mem_singleton_self _)
      rw [Frame.stakes, Stakes.holds_turn, add_assoc, add_left_comm, Multiset.singleton_add] at ledger
      have inner := ih _ world _ sound.2 anchored.2 ledger
      rw [World.cancel, own]
      exact inner.trans (.release inner.ledger)
    | present | tagged | folding | stage =>
      refine ih owner world others sound.2 anchored.2 ?_
      simpa [Frame.stakes, Frame.owner] using ledger
  | join parts ih =>
    intro owner world others sound anchored ledger
    rw [Task.sound_join] at sound
    rw [Task.stakes_join] at anchored ledger
    exact cancelParts_struck ih owner world others sound anchored ledger
  | fan fan queued running =>
    intro owner world others sound anchored ledger
    rw [Task.sound_fan] at sound
    rw [Task.stakes_fan] at anchored ledger
    rw [Stakes.anchored_add] at anchored
    rw [Stakes.holds_add, holds_queued sound.1.unstarted, zero_add] at ledger
    have struck := cancelElements_struck running owner world others sound.2.2 anchored.2 ledger
    exact struck.calm (.forget _ _)

end Cancel

end Blueprint
