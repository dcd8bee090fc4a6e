import Mathlib.Data.Multiset.Bind
import Blueprint.Proofs.Counters
import Blueprint.Proofs.Machine.Advance
/-! What the steps of a machine are at the desk of its registry. Every claim that a task has there is that of a fetch
which is not over; a step that turns to the registry moves one fetch, and a step that drops tasks moves all that are
dropped. -/

namespace Blueprint

/-- The claim of a fetch, if it is not over. -/
def Standing.claim (owner : Option Key) (key : Key) (ticket : Nat) : Standing → Multiset Hold
  | waiting => {⟨owner, key, some ticket⟩}
  | initializing => {⟨owner, key, none⟩}
  | ended _ => 0

section Claim

variable (owner : Option Key) (key : Key) (ticket : Nat)

@[simp] theorem Standing.claim_waiting : waiting.claim owner key ticket = {⟨owner, key, some ticket⟩} := rfl

@[simp] theorem Standing.claim_initializing : initializing.claim owner key ticket = {⟨owner, key, none⟩} := rfl

@[simp] theorem Standing.claim_ended (fate : Fate) : (ended fate).claim owner key ticket = 0 := rfl

end Claim

def Visit.claim (visit : Visit) : Multiset Hold := visit.standing.claim visit.owner visit.key visit.ticket

namespace Desk

/-- The claims of all fetches. -/
def holds (desk : Desk) : Multiset Hold := desk.visits.bind Visit.claim

/-- The desk of a registry on whose entries there are some claims. -/
structure Mirrors (registry : Registry) (holds : Multiset Hold) (desk : Desk) : Prop where
  sound : desk.Sound
  registry : desk.registry = registry
  holds : desk.holds = holds

/-- By some moves, none of which registers a key, a registry and the claims on it go over into others. -/
def Brings (moves : List Move) (registry : Registry) (holds : Multiset Hold) (after : Registry)
    (later : Multiset Hold) : Prop :=
  ∀ desk, Mirrors registry holds desk →
    ∃ next, Run moves desk next ∧ Mirrors after later next ∧ next.deferred = desk.deferred

variable {registry between after : Registry} {owner : Option Key} {key : Key} {ticket : Nat} {hold : Hold}
  {holds others : Multiset Hold} {desk : Desk}

/-- A claim is that of some fetch. -/
theorem Mirrors.visit (mirrors : Mirrors registry (hold ::ₘ others) desk) : ∃ visit rest,
    desk.visits = visit ::ₘ rest ∧ visit.claim = {hold} ∧ rest.bind Visit.claim = others := by
  have claims : desk.visits.bind Visit.claim = hold ::ₘ others := mirrors.holds
  have listed : hold ∈ desk.visits.bind Visit.claim := by
    rw [claims]
    exact Multiset.mem_cons_self hold others
  obtain ⟨visit, member, own⟩ := Multiset.mem_bind.mp listed
  obtain ⟨rest, split⟩ := Multiset.exists_cons_of_mem member
  have whole : visit.claim = {hold} := by
    obtain ⟨number, target, type, maker, met, standing, hits, initializations⟩ := visit
    cases standing with
    | waiting =>
      rw [Multiset.mem_singleton.mp own]
      rfl
    | initializing =>
      rw [Multiset.mem_singleton.mp own]
      rfl
    | ended => exact absurd own (Multiset.notMem_zero hold)
  refine ⟨visit, rest, split, whole, ?_⟩
  rw [split, Multiset.cons_bind, whole, Multiset.singleton_add] at claims
  exact (Multiset.cons_inj_right hold).mp claims

theorem Mirrors.waiting (mirrors : Mirrors registry (⟨owner, key, some ticket⟩ ::ₘ others) desk) :
    ∃ visit rest, desk.visits = visit ::ₘ rest ∧ visit.standing = .waiting ∧
      (visit.owner = owner ∧ visit.key = key ∧ visit.ticket = ticket) ∧ visit.type = key.type ∧
      rest.bind Visit.claim = others := by
  obtain ⟨visit, rest, split, own, beside⟩ := mirrors.visit
  have member : visit ∈ desk.visits := split ▸ Multiset.mem_cons_self visit rest
  have typed := mirrors.sound.typed visit member
  obtain ⟨number, target, type, maker, met, standing, hits, initializations⟩ := visit
  cases standing with
  | waiting =>
    cases Multiset.singleton_inj.mp own
    exact ⟨_, rest, split, rfl, ⟨rfl, rfl, rfl⟩, typed (.inl rfl), beside⟩
  | initializing => cases Multiset.singleton_inj.mp own
  | ended => exact absurd own.symm (Multiset.singleton_ne_zero _)

theorem Mirrors.turn (mirrors : Mirrors registry (⟨owner, key, none⟩ ::ₘ others) desk) :
    ∃ visit rest, desk.visits = visit ::ₘ rest ∧ visit.standing = .initializing ∧
      (visit.owner = owner ∧ visit.key = key) ∧ visit.type = key.type ∧ rest.bind Visit.claim = others := by
  obtain ⟨visit, rest, split, own, beside⟩ := mirrors.visit
  have member : visit ∈ desk.visits := split ▸ Multiset.mem_cons_self visit rest
  have typed := mirrors.sound.typed visit member
  obtain ⟨number, target, type, maker, met, standing, hits, initializations⟩ := visit
  cases standing with
  | waiting => cases Multiset.singleton_inj.mp own
  | initializing =>
    cases Multiset.singleton_inj.mp own
    exact ⟨_, rest, split, rfl, ⟨rfl, rfl⟩, typed (.inr rfl), beside⟩
  | ended => exact absurd own.symm (Multiset.singleton_ne_zero _)

/-- The claims after one fetch has moved. -/
theorem holds_put (desk : Desk) (registry : Registry) (visit : Visit) (standing : Standing) (rest : Multiset Visit) :
    (desk.put registry visit standing rest).holds =
      standing.claim visit.owner visit.key visit.ticket + rest.bind Visit.claim :=
  Multiset.cons_bind _ _ _

namespace Brings

variable {moves more : List Move} {later last : Multiset Hold}

theorem refl (registry : Registry) (holds : Multiset Hold) : Brings [] registry holds registry holds :=
  fun desk mirrors => ⟨desk, .nil desk, mirrors, rfl⟩

theorem append (left : Brings moves registry holds between later) (right : Brings more between later after last) :
    Brings (moves ++ more) registry holds after last := by
  intro desk mirrors
  obtain ⟨middle, first, halfway, same⟩ := left desk mirrors
  obtain ⟨next, second, ending, still⟩ := right middle halfway
  exact ⟨next, first.append second, ending, still.trans same⟩

/-- By one move. -/
theorem single {move : Move} (moved : ∀ desk, Mirrors registry holds desk → ∃ next, Moves move desk next ∧
    next.registry = after ∧ next.holds = later ∧ next.deferred = desk.deferred) :
    Brings [move] registry holds after later := by
  intro desk mirrors
  obtain ⟨next, moves, sameRegistry, sameHolds, sameKeys⟩ := moved desk mirrors
  exact ⟨next, .single moves, ⟨mirrors.sound.moves moves, sameRegistry, sameHolds⟩, sameKeys⟩

theorem withdraw : Brings [.withdraw key ticket] registry (⟨owner, key, some ticket⟩ ::ₘ others)
    ((registry.withdraw key ticket).2.unlink owner key) others := by
  refine single fun desk mirrors => ?_
  obtain ⟨visit, rest, split, waiting, ⟨rfl, rfl, rfl⟩, typed, beside⟩ := mirrors.waiting
  refine ⟨_, .withdraw split waiting, by rw [← mirrors.registry]; rfl, ?_, rfl⟩
  rw [holds_put, beside, Standing.claim_ended, zero_add]

theorem cancel : Brings [.cancel key] registry (⟨owner, key, none⟩ ::ₘ others)
    ((registry.release key).2.unlink owner key) others := by
  refine single fun desk mirrors => ?_
  obtain ⟨visit, rest, split, initializes, ⟨rfl, rfl⟩, typed, beside⟩ := mirrors.turn
  refine ⟨_, .cancel split initializes, by rw [← mirrors.registry]; rfl, ?_, rfl⟩
  rw [holds_put, beside, Standing.claim_ended, zero_add]

theorem fail : Brings [.fail key] registry (⟨owner, key, none⟩ ::ₘ others)
    ((registry.release key).2.unlink owner key) others := by
  refine single fun desk mirrors => ?_
  obtain ⟨visit, rest, split, initializes, ⟨rfl, rfl⟩, typed, beside⟩ := mirrors.turn
  refine ⟨_, .fail split initializes, by rw [← mirrors.registry]; rfl, ?_, rfl⟩
  rw [holds_put, beside, Standing.claim_ended, zero_add]

theorem complete (value : Value) : Brings [.complete key value] registry (⟨owner, key, none⟩ ::ₘ others)
    ((registry.settle key ⟨key.type, value⟩).2.unlink owner key) others := by
  refine single fun desk mirrors => ?_
  obtain ⟨visit, rest, split, initializes, ⟨rfl, rfl⟩, typed, beside⟩ := mirrors.turn
  refine ⟨_, .complete value split initializes, by rw [← mirrors.registry, ← typed]; rfl, ?_, rfl⟩
  rw [holds_put, beside, Standing.claim_ended, zero_add]

theorem arrive {type : TypeName} {strands : List Strand} {arrival : Registry.Arrival}
    (arrives : registry.arrive type key owner ⟨ticket, strands⟩ = (arrival, after)) :
    Brings [.arrive ticket key type owner strands] registry others after
      (arrival.standing.claim owner key ticket + others) := by
  refine single fun desk mirrors => ?_
  rw [← mirrors.registry] at arrives
  refine ⟨_, .arrive arrives, rfl, ?_, rfl⟩
  rw [holds_put, ← mirrors.holds]
  rfl

/-- The claim that is left when a fetch has looked again, and the registry then. -/
theorem resume {resumption : Registry.Resumption} (looks : registry.resume key.type key ticket = (resumption, between)) :
    Brings [.resume key ticket] registry (⟨owner, key, some ticket⟩ ::ₘ others)
      (match resumption with
        | .waiting | .turn => between
        | .found _ | .refused _ => between.unlink owner key)
      (resumption.standing.claim owner key ticket + others) := by
  refine single fun desk mirrors => ?_
  obtain ⟨visit, rest, split, waiting, ⟨rfl, rfl, rfl⟩, typed, beside⟩ := mirrors.waiting
  rw [← mirrors.registry, ← typed] at looks
  cases resumption with
  | waiting => exact ⟨_, .waits split waiting looks, rfl, by rw [holds_put, beside]; rfl, rfl⟩
  | found => exact ⟨_, .answered split waiting looks, rfl, by rw [holds_put, beside]; rfl, rfl⟩
  | refused => exact ⟨_, .refused split waiting looks, rfl, by rw [holds_put, beside]; rfl, rfl⟩
  | turn => exact ⟨_, .turn split waiting looks, rfl, by rw [holds_put, beside]; rfl, rfl⟩

end Brings

end Desk

/-! ### Dropped tasks -/

mutual

/-- What is given up with a task, in the order in which it is. -/
def Task.drops : Task → List Move
  | .waiting fetch ticket => [.withdraw fetch.key ticket]
  | .inside frame task =>
    match frame with
    | .fetching fetch => task.drops ++ [.cancel fetch.key]
    | _ => task.drops
  | .join parts => dropsOfParts parts
  | .fan ⟨_, _, _, _, running, _⟩ => dropsOfElements running
  | .node _ _ | .shell _ _ | .variant _ _ _ | .field _ _ _ _ | .delay _ _ _ | .forever => []

def dropsOfParts : List (Part Task) → List Move
  | [] => []
  | .done _ :: rest => dropsOfParts rest
  | .running task :: rest => dropsOfParts rest ++ task.drops

def dropsOfElements : List (Nat × Task) → List Move
  | [] => []
  | (_, task) :: rest => task.drops ++ dropsOfElements rest

end

section Drops

variable {meanings : Lookup → Prop}

/-- To drop a task takes its claims off the desk. -/
def Task.Drops (meanings : Lookup → Prop) (task : Task) : Prop :=
  ∀ (owner : Option Key) (world : World) (others : Multiset Hold), task.Sound meanings →
    Stakes.Anchored (task.stakes owner) →
      Desk.Brings task.drops world.registry (Stakes.holds (task.stakes owner) + others) (world.cancel task).registry
        others

theorem dropsOfParts_brings {parts : List (Part Task)} (each : ∀ task, .running task ∈ parts → task.Drops meanings)
    (owner : Option Key) (world : World) (others : Multiset Hold) (sound : SoundParts meanings parts)
    (anchored : Stakes.Anchored (stakesOfParts owner parts)) :
    Desk.Brings (dropsOfParts parts) world.registry (Stakes.holds (stakesOfParts owner parts) + others)
      (world.cancelParts parts).registry others := by
  induction parts generalizing world others with
  | nil =>
    rw [stakesOfParts, Stakes.holds_zero, zero_add]
    exact .refl _ others
  | cons part rest ih =>
    have later := ih fun task member => each task (List.mem_cons_of_mem _ member)
    cases part with
    | done value => exact later world others (by simpa using sound) (by simpa using anchored)
    | running task =>
      rw [soundParts_running] at sound
      rw [stakesOfParts_running, Stakes.anchored_add] at anchored
      rw [stakesOfParts_running, Stakes.holds_add, add_comm (Stakes.holds (task.stakes owner)), add_assoc]
      exact (later world _ sound.2 anchored.2).append
        (each task List.mem_cons_self owner _ others sound.1 anchored.1)

theorem dropsOfElements_brings {elements : List (Nat × Task)}
    (each : ∀ element ∈ elements, element.2.Drops meanings) (owner : Option Key) (world : World)
    (others : Multiset Hold) (sound : SoundElements meanings elements)
    (anchored : Stakes.Anchored (stakesOfElements owner elements)) :
    Desk.Brings (dropsOfElements elements) world.registry (Stakes.holds (stakesOfElements owner elements) + others)
      (world.cancelElements elements).registry others := by
  induction elements generalizing world others with
  | nil =>
    rw [stakesOfElements, Stakes.holds_zero, zero_add]
    exact .refl _ others
  | cons element rest ih =>
    rw [soundElements_iff] at sound
    rw [stakesOfElements_cons, Stakes.anchored_add] at anchored
    rw [stakesOfElements_cons, Stakes.holds_add, add_assoc]
    refine (each element List.mem_cons_self owner world _ (sound element List.mem_cons_self) anchored.1).append ?_
    exact ih (fun other member => each other (List.mem_cons_of_mem _ member)) _ others
      (soundElements_iff.mpr fun other member => sound other (List.mem_cons_of_mem _ member)) anchored.2

theorem Task.drops_brings (task : Task) : task.Drops meanings := by
  induction task using Task.induction with
  | node | shell | variant | field | forever =>
    intro owner world others _ _
    rw [Task.drops, World.cancel]
    simpa using Desk.Brings.refl world.registry others
  | delay due timer next ih =>
    intro owner world others sound _
    rw [Task.stakes_delay, Task.Unstarted.holds ((Task.sound_delay due timer next).mp sound), zero_add]
    exact .refl _ others
  | waiting fetch ticket =>
    intro owner world others _ anchored
    have own : fetch.scope.owner = owner := anchored _ (Multiset.mem_singleton_self _)
    rw [Task.drops, World.cancel, own, Task.stakes_waiting, Stakes.holds_waiting, Multiset.singleton_add, World.unlink,
      World.withdraw, World.Goes.wakeAll_registry]
    exact .withdraw
  | inside frame task ih =>
    intro owner world others sound anchored
    rw [Task.sound_inside] at sound
    rw [Task.stakes_inside, Stakes.anchored_add] at anchored
    rw [Task.stakes_inside, Stakes.holds_add]
    cases frame with
    | fetching fetch =>
      have own : fetch.scope.owner = owner := anchored.1 _ (Multiset.mem_singleton_self _)
      rw [Task.drops, World.cancel, own, Frame.stakes, Stakes.holds_turn, add_assoc, add_left_comm,
        Multiset.singleton_add, World.unlink, World.release, World.Goes.wakeAll_registry]
      exact (ih _ world _ sound.2 anchored.2).append .cancel
    | present | tagged | folding | stage =>
      simpa [Task.drops, World.cancel, Frame.stakes, Frame.owner] using ih owner world others sound.2 anchored.2
  | join parts ih =>
    intro owner world others sound anchored
    rw [Task.sound_join] at sound
    exact dropsOfParts_brings ih owner world others sound anchored
  | fan fan queued running =>
    intro owner world others sound anchored
    rw [Task.sound_fan] at sound
    rw [Task.stakes_fan, Stakes.anchored_add] at anchored
    rw [Task.stakes_fan, Stakes.holds_add, holds_queued sound.1.unstarted, zero_add]
    exact dropsOfElements_brings running owner world others sound.2.2 anchored.2

end Drops

/-! ### Steps -/

/-- What happens at the desk when a failure leaves a layer. -/
def Layer.failing : Layer → List Move
  | .inside (.fetching fetch) => [.fail fetch.key]
  | .inside _ => []
  | .joining before after => dropsOfParts (before ++ after)
  | .fanning fan _ _ => dropsOfElements fan.running

/-- What happens at the desk when a machine takes a step. -/
def Machine.moves (machine : Machine) (world : World) : List Move :=
  match machine.control, machine.layers with
  | .poll (.node (.reference type name) scope), _ =>
    [.arrive world.fresh (Node.keyOf type name) type.typeName scope.owner machine.strands]
  | .poll (.waiting fetch ticket), _ => [.resume fetch.key ticket]
  | .finish (.ok value), .inside (.fetching fetch) :: _ => [.complete fetch.key value]
  | .finish (.error _), layer :: _ => layer.failing
  | _, _ => []

/-- A step that has nothing to do with the registry. -/
theorem Quietly.brings {meanings : Lookup → Prop} {task : Task} {world : World} {result : Machine × World}
    (quietly : Quietly meanings task world result) (others : Multiset Hold) :
    Desk.Brings [] world.registry (Stakes.holds (task.stakes none) + others) result.2.registry
      (Stakes.holds (result.1.whole.stakes none) + others) := by
  rw [quietly.alike.stakes, quietly.calm.registry]
  exact .refl _ _

namespace Machine

variable {contents : Contents} {roots : List Key} {others : Multiset Hold}

theorem holds_surround (layers : List Layer) (task : Task) : Stakes.holds ((surround layers task).stakes none) =
    Stakes.holds (task.stakes (ownerWithin layers)) + Stakes.holds (stakesAround layers) := by
  rw [stakes_surround, Stakes.holds_add]

/-- Whoever has the turn has the claim of one that initializes, whether the payload is of use or not. -/
theorem beginFetch_holds (machine : Machine) (fetch : Fetch) (world : World) :
    Stakes.holds ((machine.beginFetch fetch world).1.whole.stakes none) =
      {⟨ownerWithin machine.layers, fetch.key, none⟩} + Stakes.holds (stakesAround machine.layers) := by
  have initializing : ∀ (control : Control) (scope : Scope), Stakes.holds (control.task.stakes (some fetch.key)) = 0 →
      Stakes.holds (Machine.whole ⟨machine.operation, control, .inside (.fetching fetch) :: machine.layers⟩ |>.stakes none) =
        {⟨ownerWithin machine.layers, fetch.key, none⟩} + Stakes.holds (stakesAround machine.layers) := by
    intro control scope idle
    rw [whole, surround, holds_surround, Layer.around, Task.stakes_inside, Stakes.holds_add, Frame.stakes,
      Stakes.holds_turn, Frame.owner, idle, add_zero]
  unfold beginFetch
  split
  · dsimp only
    split
    · exact initializing _ fetch.scope (by simp [Control.task])
    · exact initializing _ fetch.scope (by simp [Control.task])
  · exact initializing _ fetch.scope (by simp [Control.task])

theorem beginFetch_registry (machine : Machine) (fetch : Fetch) (world : World) :
    (machine.beginFetch fetch world).2.registry = world.registry := by
  unfold beginFetch
  split
  · dsimp only
    split <;> rfl
  · rfl

theorem dereference_brings (machine : Machine) (type : EntityType) (name : String) (scope : Scope) (world : World)
    (account : Task.Account contents roots others (surround machine.layers (.node (.reference type name) scope)) world) :
    Desk.Brings [.arrive world.fresh (Node.keyOf type name) type.typeName scope.owner machine.strands] world.registry
      (Stakes.holds ((surround machine.layers (.node (.reference type name) scope)).stakes none) + others)
      (machine.dereference type name scope world).2.registry
      (Stakes.holds ((machine.dereference type name scope world).1.whole.stakes none) + others) := by
  have anchored : scope.owner = ownerWithin machine.layers := account.pending.anchored
  rw [holds_surround, Task.stakes_node, Stakes.holds_pendings, zero_add]
  rcases result : world.registry.arrive type.typeName (Node.keyOf type name) scope.owner
    ⟨world.fresh, machine.strands⟩ with ⟨arrival, after⟩
  have brings := @Desk.Brings.arrive _ _ _ _ _ (Stakes.holds (stakesAround machine.layers) + others) _ _ _ result
  rw [← add_assoc] at brings
  unfold dereference
  simp only [World.take, World.arrive, result]
  cases arrival with
  | refused error =>
    simp only [finish_error_whole, holds_surround, Task.stakes_forever, Stakes.holds_zero]
    simpa only [Registry.Arrival.standing, Standing.claim_ended] using brings
  | found value =>
    simp only [finish_ok_whole, holds_surround, Task.stakes_node, Stakes.holds_pendings]
    simpa only [Registry.Arrival.standing, Standing.claim_ended] using brings
  | turn payload =>
    rw [beginFetch_holds, beginFetch_registry, ← anchored]
    simpa only [Registry.Arrival.standing, Standing.claim_initializing, Fetch.key] using brings
  | queued payload =>
    simp only [rest_whole, holds_surround, Task.stakes_waiting, Stakes.holds_waiting, ← anchored]
    simpa only [Registry.Arrival.standing, Standing.claim_waiting, Fetch.key] using brings

theorem awaken_brings (machine : Machine) (fetch : Fetch) (ticket : Nat) (world : World)
    (account : Task.Account contents roots others (surround machine.layers (.waiting fetch ticket)) world) :
    Desk.Brings [.resume fetch.key ticket] world.registry
      (Stakes.holds ((surround machine.layers (.waiting fetch ticket)).stakes none) + others)
      (machine.awaken fetch ticket world).2.registry
      (Stakes.holds ((machine.awaken fetch ticket world).1.whole.stakes none) + others) := by
  have anchored : fetch.scope.owner = ownerWithin machine.layers := account.waiting.anchored
  rw [holds_surround, Task.stakes_waiting, Stakes.holds_waiting, add_assoc, Multiset.singleton_add]
  rcases result : world.registry.resume fetch.key.type fetch.key ticket with ⟨resumption, after⟩
  have brings := @Desk.Brings.resume _ _ (ownerWithin machine.layers) _ _
    (Stakes.holds (stakesAround machine.layers) + others) _ result
  rw [← add_assoc] at brings
  have looks : world.resume fetch.type.typeName fetch.key ticket = (resumption, { world with registry := after }) := by
    rw [World.resume]
    exact congrArg (fun pair => (pair.1, { world with registry := pair.2 })) result
  unfold awaken
  rw [looks]
  cases resumption with
  | waiting =>
    simp only [rest_whole, holds_surround, Task.stakes_waiting, Stakes.holds_waiting]
    simpa only [Registry.Resumption.standing, Standing.claim_waiting] using brings
  | found value =>
    simp only [finish_ok_whole, holds_surround, Task.stakes_node, Stakes.holds_pendings, anchored]
    simpa only [Registry.Resumption.standing, Standing.claim_ended, World.unlink] using brings
  | refused error =>
    simp only [finish_error_whole, holds_surround, Task.stakes_forever, Stakes.holds_zero, anchored]
    simpa only [Registry.Resumption.standing, Standing.claim_ended, World.unlink] using brings
  | turn =>
    dsimp only
    rw [beginFetch_holds, beginFetch_registry]
    simpa only [Registry.Resumption.standing, Standing.claim_initializing] using brings

theorem finishFetch_brings (machine : Machine) (fetch : Fetch) (value : Value) (world : World) {scope : Scope}
    (account : Task.Account contents roots others
      (surround machine.layers (.inside (.fetching fetch) (.node (.literal value) scope))) world) :
    Desk.Brings [.complete fetch.key value] world.registry
      (Stakes.holds ((surround machine.layers (.inside (.fetching fetch) (.node (.literal value) scope))).stakes none) +
        others)
      (machine.finishFrame (.fetching fetch) value world).2.registry
      (Stakes.holds ((machine.finishFrame (.fetching fetch) value world).1.whole.stakes none) + others) := by
  have own := account.place.1
  rw [Task.stakes_inside, Stakes.lawful_add, Frame.stakes, Stakes.lawful_singleton] at own
  have anchored : fetch.scope.owner = ownerWithin machine.layers := own.1.anchored
  rw [holds_surround, Task.stakes_inside, Stakes.holds_add, Frame.stakes, Stakes.holds_turn, Task.stakes_node,
    Stakes.holds_pendings, add_zero, add_assoc, Multiset.singleton_add, finishFrame, finish_ok_whole, holds_surround,
    Task.stakes_node, Stakes.holds_pendings, zero_add, World.unlink, World.settle, World.Goes.wakeAll_registry,
    anchored]
  exact .complete value

theorem failIn_brings (machine : Machine) (layer : Layer) (error : ResolveError) (world : World)
    (account : Task.Account contents roots others (surround machine.layers (layer.around .forever)) world) :
    Desk.Brings layer.failing world.registry
      (Stakes.holds ((surround machine.layers (layer.around .forever)).stakes none) + others)
      (failIn layer world).registry (Stakes.holds ((machine.finish (.error error)).whole.stakes none) + others) := by
  have own := account.place.1
  have inner : (layer.around .forever).Sound contents.Meaning := sound_of_surround account.sound
  rw [Layer.stakes_around, Task.stakes_forever, zero_add] at own
  rw [holds_surround, finish_error_whole, holds_surround, Layer.stakes_around, Task.stakes_forever, Task.stakes_forever,
    zero_add, Stakes.holds_zero, zero_add, add_assoc]
  cases layer with
  | inside frame =>
    cases frame with
    | fetching fetch =>
      rw [Layer.stakes, Frame.stakes, Stakes.lawful_singleton] at own
      have anchored : fetch.scope.owner = ownerWithin machine.layers := own.anchored
      rw [failIn, anchored, Layer.stakes, Frame.stakes, Stakes.holds_turn, Multiset.singleton_add, World.unlink,
        World.release, World.Goes.wakeAll_registry]
      exact .fail
    | present | tagged | folding | stage =>
      simpa [Layer.stakes, Frame.stakes, failIn, Layer.failing] using Desk.Brings.refl world.registry _
  | joining before after =>
    rw [Layer.stakes, ← stakesOfParts_append] at own ⊢
    rw [Layer.around, Task.sound_join, soundParts_append, soundParts_running] at inner
    have rest : SoundParts contents.Meaning (before ++ after) := (soundParts_append _ _ _).mpr ⟨inner.1, inner.2.2⟩
    exact dropsOfParts_brings (fun task _ => task.drops_brings) _ world _ rest own.anchored
  | fanning fan position tally =>
    rw [Layer.around, Task.sound_fan, soundElements_iff, soundElements_iff] at inner
    rw [Layer.stakes, Stakes.lawful_add] at own
    rw [Layer.stakes, Stakes.holds_add, holds_queued inner.1.unstarted, zero_add]
    exact dropsOfElements_brings (fun element _ => element.2.drops_brings) _ world _
      (soundElements_iff.mpr fun element member => inner.2.2 element (List.mem_cons_of_mem _ member)) own.2.anchored

/-- What a step does at the desk. -/
theorem step_brings {machine : Machine} {world : World} {result : Machine × World}
    (account : machine.Account contents roots others world) (step : machine.step world = some result) :
    Desk.Brings (machine.moves world) world.registry (Stakes.holds (machine.whole.stakes none) + others)
      result.2.registry (Stakes.holds (result.1.whole.stakes none) + others) := by
  have whole := account.whole
  cases step_steps step with
  | @poll operation task layers =>
    by_cases alone : ¬ Consults task
    · have nothing : Machine.moves ⟨operation, .poll task, layers⟩ world = [] := by
        unfold moves
        split <;> simp_all [Consults]
      rw [nothing]
      exact (pollTask_quiet ⟨operation, .poll task, layers⟩ task world alone whole.sound).brings others
    · rw [not_not] at alone
      unfold Consults at alone
      split at alone
      next type name scope => exact dereference_brings ⟨operation, .poll _, layers⟩ type name scope world whole
      next fetch ticket => exact awaken_brings ⟨operation, .poll _, layers⟩ fetch ticket world whole
      next => exact absurd alone id
  | @rest operation task layer layers =>
    exact (restIn_quiet ⟨operation, .rest task, layers⟩ layer task world whole.sound).brings others
  | @finish operation value layer layers =>
    by_cases free : ∀ fetch, layer ≠ .inside (.fetching fetch)
    · have nothing : Machine.moves ⟨operation, .finish (.ok value), layer :: layers⟩ world = [] := by
        unfold moves
        split <;> simp_all
      rw [nothing]
      exact (finishIn_quiet ⟨operation, .finish (.ok value), layers⟩ layer value world free whole.sound).brings others
    · simp only [ne_eq, not_forall, not_not] at free
      obtain ⟨fetch, rfl⟩ := free
      exact finishFetch_brings ⟨operation, .finish (.ok value), layers⟩ fetch value world whole
  | @fail operation error layer layers =>
    exact failIn_brings ⟨operation, .finish (.error error), layers⟩ layer error world whole

end Machine

end Blueprint
