import Blueprint.Proofs.Machine.Spending
/-! What a step does for what is at stake. A reference that is wanted is wanted until its entry is complete; an
entry that is begun wants all references of its node; and an entry becomes complete only by the fetch that is
initializing it. What is dropped begins and completes nothing. -/

namespace Blueprint

namespace Stakes

variable {first second : Stakes} {owner : Option Key} {key : Key}

/-- Somebody who works on behalf of an owner has a key at stake. -/
def Wants (stakes : Stakes) (owner : Option Key) (key : Key) : Prop :=
  ∃ stake ∈ stakes, stake.1 = owner ∧ stake.2.key = key

theorem wants_add : (first + second).Wants owner key ↔ first.Wants owner key ∨ second.Wants owner key := by
  simp only [Wants, Multiset.mem_add, or_and_right, exists_or]

theorem wants_singleton {other : Option Key} {stake : Stake} :
    Stakes.Wants {(other, stake)} owner key ↔ other = owner ∧ stake.key = key := by
  simp [Wants]

theorem wants_pendings {other : Option Key} {references : List Key} {anchor : Anchor} :
    Wants (pendings other references anchor) owner key ↔ other = owner ∧ key ∈ references := by
  constructor
  · rintro ⟨stake, member, rfl, rfl⟩
    obtain ⟨key, listed, rfl⟩ := mem_pendings.mp member
    exact ⟨rfl, listed⟩
  · rintro ⟨rfl, listed⟩
    exact ⟨_, mem_pendings.mpr ⟨key, listed, rfl⟩, rfl, rfl⟩

theorem turns_singleton {fetch : Fetch} : Stakes.Turns {(owner, .turn fetch)} key ↔ fetch.key = key := by
  simp [Turns]

end Stakes

namespace Registry

variable {registry : Registry}

/-- How many initializations a fetch begins when it arrives. -/
def Arrival.starts : Arrival → Nat
  | turn _ => 1
  | refused _ | found _ | queued _ => 0

/-- How many initializations a fetch begins when it looks again. -/
def Resumption.starts : Resumption → Nat
  | turn => 1
  | waiting | found _ | refused _ => 0

theorem link_initializations {linked : Registry} {owner : Option Key} {key : Key}
    (accepted : registry.link owner key = .ok linked) : linked.initializations = registry.initializations := by
  rw [link_ok accepted]

theorem arrive_initializations (type : TypeName) (key : Key) (owner : Option Key) (waiter : Waiter) :
    (registry.arrive type key owner waiter).2.initializations =
      registry.initializations + (registry.arrive type key owner waiter).1.starts := by
  have arriving := arrive_arriving registry type key owner waiter
  generalize registry.arrive type key owner waiter = outcome at arriving ⊢
  cases arriving with
  | refused | found | mistyped => rfl
  | turn _ accepted => exact congrArg (· + 1) (link_initializations accepted)
  | queued _ accepted =>
    have same := link_initializations accepted
    exact same

theorem resume_initializations (type : TypeName) (key : Key) (ticket : Nat) :
    (registry.resume type key ticket).2.initializations =
      registry.initializations + (registry.resume type key ticket).1.starts := by
  unfold resume
  split
  · rfl
  · split <;> rfl
  · split <;> rfl

theorem release_initializations (key : Key) :
    (registry.release key).2.initializations = registry.initializations := by
  unfold release
  split <;> rfl

theorem withdraw_initializations (key : Key) (ticket : Nat) :
    (registry.withdraw key ticket).2.initializations = registry.initializations := by
  unfold withdraw
  split
  · exact release_initializations key
  · rfl

end Registry

/-- A change of the world in which no initialization begins and no value is stored or lost. -/
structure World.Inert (before after : World) : Prop where
  begun : after.begun = before.begun
  counted : after.registry.initializations = before.registry.initializations
  values : ∀ key : Key, after.registry.get? key.type key = before.registry.get? key.type key

namespace World.Inert

variable {first second third world : World}

theorem of_calm (calm : first.Calm second) : first.Inert second :=
  ⟨calm.begun, by rw [calm.registry], fun key => by rw [calm.registry]⟩

theorem trans (left : first.Inert second) (right : second.Inert third) : first.Inert third :=
  ⟨right.begun.trans left.begun, right.counted.trans left.counted,
    fun key => (right.values key).trans (left.values key)⟩

theorem unlink (world : World) (owner : Option Key) (key : Key) : world.Inert (world.unlink owner key) := by
  refine ⟨rfl, ?_, fun other => Registry.get?_unlink owner key⟩
  cases owner <;> rfl

/-- A change of the registry, and the waking that follows. -/
theorem of_registry {registry : Registry} (waiters : List Waiter)
    (counted : registry.initializations = world.registry.initializations)
    (values : ∀ key : Key, registry.get? key.type key = world.registry.get? key.type key) :
    world.Inert ({ world with registry }.wakeAll waiters) := by
  have changed : world.Inert { world with registry } := ⟨rfl, counted, values⟩
  exact changed.trans (.of_calm (.wakeAll _ _))

theorem release (world : World) (key : Key) : world.Inert (world.release key) :=
  .of_registry _ (Registry.release_initializations key) fun _ => Registry.get?_release key

theorem withdraw (world : World) (key : Key) (ticket : Nat) : world.Inert (world.withdraw key ticket) :=
  .of_registry _ (Registry.withdraw_initializations key ticket) fun _ => Registry.get?_withdraw key ticket

theorem cancelParts {parts : List (Part Task)}
    (each : ∀ task, .running task ∈ parts → ∀ world : World, world.Inert (world.cancel task)) (world : World) :
    world.Inert (world.cancelParts parts) := by
  induction parts with
  | nil => exact .of_calm (.refl _)
  | cons part rest ih =>
    have later := ih fun task member => each task (List.mem_cons_of_mem _ member)
    cases part with
    | done value => exact later
    | running task => exact later.trans (each task List.mem_cons_self _)

theorem cancelElements {elements : List (Nat × Task)}
    (each : ∀ element ∈ elements, ∀ world : World, world.Inert (world.cancel element.2)) (world : World) :
    world.Inert (world.cancelElements elements) := by
  induction elements generalizing world with
  | nil => exact .of_calm (.refl _)
  | cons element rest ih =>
    exact (each element List.mem_cons_self world).trans
      (ih (fun other member => each other (List.mem_cons_of_mem _ member)) _)

/-- Whatever is dropped begins and completes nothing. -/
theorem cancel (task : Task) (world : World) : world.Inert (world.cancel task) := by
  induction task using Task.induction generalizing world with
  | node | shell | variant | field | forever => exact .of_calm (.refl _)
  | delay due timer next ih => exact .of_calm (.dropTimer _ _)
  | waiting fetch ticket => exact (withdraw world _ _).trans (unlink _ _ _)
  | inside frame task ih =>
    cases frame with
    | fetching fetch => exact ((ih world).trans (release _ _)).trans (unlink _ _ _)
    | present | tagged | folding | stage => exact ih world
  | join parts ih => exact cancelParts ih world
  | fan fan queued running => exact (cancelElements running world).trans (.of_calm (.forget _ _))

theorem failIn (layer : Layer) (world : World) : world.Inert (Machine.failIn layer world) := by
  cases layer with
  | inside frame =>
    cases frame with
    | fetching fetch => exact (release world _).trans (unlink _ _ _)
    | present | tagged | folding | stage => exact .of_calm (.refl _)
  | joining before after => exact cancelParts (fun task _ => cancel task) world
  | fanning fan position tally =>
    exact (cancelElements (fun element _ => cancel element.2) world).trans (.of_calm (.forget _ _))

end World.Inert

namespace Machine

/-- What is at stake while an operation does not fail: nothing is forgotten before it is complete, the entries
that are being initialized are those from before and those that begin, and these want their references. -/
structure Continues (contents : Contents) (before after : Stakes) (later : World) (keys : List Key) : Prop where
  wants : ∀ owner key, before.Wants owner key →
    after.Wants owner key ∨ (later.registry.get? key.type key).isSome
  keeps : ∀ key, before.Turns key → after.Turns key ∨ (later.registry.get? key.type key).isSome
  begins : ∀ key ∈ keys, after.Turns key
  turns : ∀ key, after.Turns key → before.Turns key ∨ key ∈ keys
  follows : ∀ key ∈ keys, ∀ node, contents.node? key = some node → ∀ reference ∈ node.references,
    after.Wants (some key) reference

/-- What a step does for what is at stake, and the initializations that it begins. -/
structure Serves (contents : Contents) (before : Stakes) (world : World) (result : Machine × World)
    (keys : List Key) : Prop where
  begun : result.2.begun = world.begun ++ keys
  counted : result.2.registry.initializations = world.registry.initializations + keys.length
  single : keys.length ≤ 1
  fresh : ∀ key ∈ keys, ¬ before.Turns key ∧ world.registry.get? key.type key = none ∧
    (∃ owner, before.Wants owner key) ∧ ∃ payload, contents.origin? key = some (.deferred payload)
  completes : ∀ key : Key, (result.2.registry.get? key.type key).isSome →
    (world.registry.get? key.type key).isSome ∨ before.Turns key
  continues : (∀ error, result.1.control ≠ .finish (.error error)) →
    Continues contents before (result.1.whole.stakes none) result.2 keys

variable {contents : Contents} {roots : List Key} {others : Multiset Hold} {machine : Machine} {world : World}
  {result : Machine × World} {task next : Task} {layers : List Layer}

/-- A step that begins and completes nothing, and leaves the stakes as they are unless it fails. -/
theorem Serves.of_inert {before : Stakes} (inert : world.Inert result.2)
    (same : (∀ error, result.1.control ≠ .finish (.error error)) → result.1.whole.stakes none = before) :
    Serves contents before world result [] where
  begun := by rw [List.append_nil, inert.begun]
  counted := inert.counted
  single := Nat.zero_le _
  fresh key member := by cases member
  completes key complete := .inl (inert.values key ▸ complete)
  continues alive := {
    wants := fun owner key wanted => .inl (by rwa [same alive])
    keeps := fun key turns => .inl (by rwa [same alive])
    begins := fun key member => by cases member
    turns := fun key turns => .inl (by rwa [same alive] at turns)
    follows := fun key member => by cases member }

/-- A step at a place does for the whole what it does there. -/
theorem Continues.surrounded {later : World} {keys : List Key}
    (here : Continues contents (task.stakes (ownerWithin layers)) (next.stakes (ownerWithin layers)) later keys) :
    Continues contents ((surround layers task).stakes none) ((surround layers next).stakes none) later keys := by
  simp only [stakes_surround]
  constructor
  · intro owner key wanted
    rw [Stakes.wants_add] at wanted ⊢
    rcases wanted with own | around
    · exact (here.wants owner key own).imp_left .inl
    · exact .inl (.inr around)
  · intro key turns
    rw [Stakes.turns_add] at turns ⊢
    rcases turns with own | around
    · exact (here.keeps key own).imp_left .inl
    · exact .inl (.inr around)
  · exact fun key member => Stakes.turns_add.mpr (.inl (here.begins key member))
  · intro key turns
    rw [Stakes.turns_add] at turns ⊢
    rcases turns with own | around
    · exact (here.turns key own).imp_left .inl
    · exact .inl (.inr around)
  · exact fun key member node found reference listed =>
      Stakes.wants_add.mpr (.inl (here.follows key member node found reference listed))

/-- A fetch whose node is resolved on behalf of its entry wants what the node refers to. -/
theorem Continues.of_enterFetch {owner : Option Key} {fetch : Fetch} {node : Node} {later : World}
    (wanted : ∀ other key, (task.stakes owner).Wants other key ↔ owner = other ∧ fetch.key = key)
    (idle : ∀ key, ¬ (task.stakes owner).Turns key) (found : contents.node? fetch.key = some node) :
    Continues contents (task.stakes owner)
      ((Task.inside (.fetching fetch) (.node node fetch.inner)).stakes owner) later [fetch.key] := by
  have inner : (Task.inside (.fetching fetch) (.node node fetch.inner)).stakes owner =
      {(owner, .turn fetch)} + pendings (some fetch.key) node.references fetch.inner.anchor := by
    simp [Frame.stakes, Frame.owner]
  rw [inner]
  constructor
  · rintro other key own
    obtain ⟨rfl, rfl⟩ := (wanted _ _).mp own
    exact .inl (Stakes.wants_add.mpr (.inl (Stakes.wants_singleton.mpr ⟨rfl, rfl⟩)))
  · exact fun key turns => absurd turns (idle key)
  · intro key member
    obtain rfl := List.mem_singleton.mp member
    exact Stakes.turns_add.mpr (.inl (Stakes.turns_singleton.mpr rfl))
  · intro key turns
    rcases Stakes.turns_add.mp turns with own | pending
    · exact .inr (List.mem_singleton.mpr (Stakes.turns_singleton.mp own).symm)
    · exact absurd pending (idle_pending _ _ _ _)
  · intro key member other means reference listed
    obtain rfl := List.mem_singleton.mp member
    cases found.symm.trans means
    exact Stakes.wants_add.mpr (.inr (Stakes.wants_pendings.mpr ⟨rfl, listed⟩))

theorem beginFetch_serves {fetch : Fetch} {later : World}
    (lawful : (Stake.turn fetch).Lawful contents roots (ownerWithin machine.layers))
    (wanted : ∀ owner key, (task.stakes (ownerWithin machine.layers)).Wants owner key ↔
      ownerWithin machine.layers = owner ∧ fetch.key = key)
    (idle : ∀ key, ¬ (task.stakes (ownerWithin machine.layers)).Turns key)
    (ledger : Ledger contents later.registry later.fresh
      (⟨ownerWithin machine.layers, fetch.key, none⟩ ::ₘ
        (Stakes.holds (stakesAround machine.layers) + others)))
    (open' : world.registry.get? fetch.key.type fetch.key = none)
    (begun : later.begun = world.begun)
    (counted : later.registry.initializations = world.registry.initializations + 1)
    (values : ∀ key : Key, later.registry.get? key.type key = world.registry.get? key.type key) :
    Serves contents ((surround machine.layers task).stakes none) world (machine.beginFetch fetch later)
      [fetch.key] := by
  have registered := lawful.turns fetch rfl
  have emitted : (later.emit (.initializing fetch.key)).begun = world.begun ++ [fetch.key] := by
    rw [← begun]
    simp [World.begun, World.emit]
  have whole : ((surround machine.layers task).stakes none).Wants (ownerWithin machine.layers) fetch.key := by
    rw [stakes_surround, Stakes.wants_add]
    exact .inl ((wanted _ _).mpr ⟨rfl, rfl⟩)
  -- all but what follows from a node to be resolved is the same however the initialization begins
  have serves : ∀ result : Machine × World, result.2.begun = world.begun ++ [fetch.key] →
      result.2.registry = later.registry → ((∀ error, result.1.control ≠ .finish (.error error)) →
        Continues contents ((surround machine.layers task).stakes none) (result.1.whole.stakes none) result.2
          [fetch.key]) →
      Serves contents ((surround machine.layers task).stakes none) world result [fetch.key] := by
    intro result begins same continues
    refine ⟨begins, by rw [same]; exact counted, Nat.le_refl _, fun key member => ?_, fun key complete => .inl ?_,
      continues⟩
    · obtain rfl := List.mem_singleton.mp member
      exact ⟨not_turns_of_ledger idle ledger, open', ⟨_, whole⟩, _, registered⟩
    · rwa [same, values] at complete
  rcases beginFetch_cases machine fetch later registered with ⟨node, found, begins⟩ | ⟨_, begins⟩
  · rw [begins]
    exact serves _ ((World.Calm.emit _ (by simp)).begun.trans emitted) rfl fun _ =>
      (Continues.of_enterFetch wanted idle found).surrounded
  · rw [begins]
    exact serves _ emitted rfl fun alive => absurd rfl (alive _)

/-- A step at a place that begins nothing, and answers or keeps what is wanted there. -/
theorem Serves.at_place (inert : world.Inert result.2) (whole : result.1.whole = surround layers next)
    (wants : ∀ owner key, (task.stakes (ownerWithin layers)).Wants owner key →
      (next.stakes (ownerWithin layers)).Wants owner key ∨ (result.2.registry.get? key.type key).isSome)
    (idle : ∀ key, ¬ (task.stakes (ownerWithin layers)).Turns key)
    (still : ∀ key, ¬ (next.stakes (ownerWithin layers)).Turns key) :
    Serves contents ((surround layers task).stakes none) world result [] where
  begun := by rw [List.append_nil, inert.begun]
  counted := inert.counted
  single := Nat.zero_le _
  fresh key member := by cases member
  completes key complete := .inl (inert.values key ▸ complete)
  continues _ := by
    rw [whole]
    exact .surrounded {
      wants
      keeps := fun key turns => absurd turns (idle key)
      begins := fun key member => by cases member
      turns := fun key turns => absurd turns (still key)
      follows := fun key member => by cases member }

theorem dereference_serves (type : EntityType) (name : String) (scope : Scope)
    (account : Task.Account contents roots others
      (surround machine.layers (.node (.reference type name) scope)) world) :
    ∃ keys, Serves contents ((surround machine.layers (.node (.reference type name) scope)).stakes none) world
      (machine.dereference type name scope world) keys := by
  have pending := account.pending
  have anchored : scope.owner = ownerWithin machine.layers := pending.anchored
  have arrives := account.arrives machine.strands
  have idle : ∀ key, ¬ ((Task.node (.reference type name) scope).stakes (ownerWithin machine.layers)).Turns key :=
    idle_pending _ _ _
  have wanted : ∀ owner key, ((Task.node (.reference type name) scope).stakes
      (ownerWithin machine.layers)).Wants owner key ↔
        ownerWithin machine.layers = owner ∧ Node.keyOf type name = key := by
    intro owner key
    rw [Task.stakes_node, Stakes.wants_pendings]
    simp [Node.references, eq_comm]
  have kept : ∀ key : Key, (world.registry.arrive type.typeName (Node.keyOf type name) scope.owner
      ⟨world.fresh, machine.strands⟩).2.get? key.type key = world.registry.get? key.type key :=
    fun key => Registry.get?_arrive (Node.keyOf type name) _ _
  have counted := world.registry.arrive_initializations type.typeName (Node.keyOf type name) scope.owner
    ⟨world.fresh, machine.strands⟩
  unfold dereference
  simp only [World.take, World.arrive]
  generalize world.registry.arrive type.typeName (Node.keyOf type name) scope.owner
    ⟨world.fresh, machine.strands⟩ = outcome at arrives kept counted
  have inert : outcome.1.starts = 0 → ∀ fresh, world.Inert { world with registry := outcome.2, fresh } :=
    fun none _ => ⟨rfl, by rw [counted, none, Nat.add_zero], kept⟩
  cases arrives with
  | missing => exact ⟨[], .of_inert (inert rfl _) fun alive => absurd rfl (alive _)⟩
  | @found stored _ present entries =>
    refine ⟨[], .at_place (inert rfl _) (finish_ok_whole _ _) (fun owner key want => .inr ?_) idle
      (idle_pending _ _ _)⟩
    obtain ⟨_, rfl⟩ := (wanted owner key).mp want
    exact Option.isSome_iff_exists.mpr ⟨stored, (kept _).trans present⟩
  | cycle => exact ⟨[], .of_inert (inert rfl _) fun alive => absurd rfl (alive _)⟩
  | @turn payload after registered open' struck =>
    have lawful : (Stake.turn ⟨type, name, scope, payload⟩).Lawful contents roots (ownerWithin machine.layers) :=
      (Stake.Lawful.queue pending registered world.fresh).turn
    rw [anchored] at struck
    exact ⟨_, beginFetch_serves lawful wanted idle (struck.mono (Nat.le_succ _)) open' rfl counted kept⟩
  | queued =>
    refine ⟨[], .at_place (inert rfl _) (rest_whole _ _) (fun owner key want => .inl ?_) idle (idle_waiting _ _ _)⟩
    obtain ⟨rfl, rfl⟩ := (wanted owner key).mp want
    rw [Task.stakes_waiting]
    exact Stakes.wants_singleton.mpr ⟨rfl, rfl⟩

theorem awaken_serves (fetch : Fetch) (ticket : Nat)
    (account : Task.Account contents roots others (surround machine.layers (.waiting fetch ticket)) world) :
    ∃ keys, Serves contents ((surround machine.layers (.waiting fetch ticket)).stakes none) world
      (machine.awaken fetch ticket world) keys := by
  have resumes := account.resumes
  have idle := idle_waiting (ownerWithin machine.layers) fetch ticket
  have wanted : ∀ owner key, ((Task.waiting fetch ticket).stakes (ownerWithin machine.layers)).Wants owner key ↔
      ownerWithin machine.layers = owner ∧ fetch.key = key := by
    intro owner key
    rw [Task.stakes_waiting, Stakes.wants_singleton]
    rfl
  have kept : ∀ key : Key, (world.registry.resume fetch.type.typeName fetch.key ticket).2.get? key.type key =
      world.registry.get? key.type key := fun key => Registry.get?_resume fetch.key ticket
  have counted := world.registry.resume_initializations fetch.type.typeName fetch.key ticket
  unfold awaken
  simp only [World.resume]
  generalize world.registry.resume fetch.type.typeName fetch.key ticket = outcome at resumes kept counted
  have inert : outcome.1.starts = 0 → world.Inert { world with registry := outcome.2 } :=
    fun none => ⟨rfl, by rw [counted, none, Nat.add_zero], kept⟩
  cases resumes with
  | waiting =>
    exact ⟨[], .at_place (inert rfl) (rest_whole _ _) (fun owner key want => .inl want) idle idle⟩
  | @found stored present =>
    refine ⟨[], .at_place ((inert rfl).trans (.unlink _ _ _)) (finish_ok_whole _ _)
      (fun owner key want => .inr ?_) idle (idle_pending _ _ _)⟩
    obtain ⟨_, rfl⟩ := (wanted owner key).mp want
    exact Option.isSome_iff_exists.mpr ⟨stored, (Registry.get?_unlink _ _).trans present⟩
  | turn open' struck =>
    exact ⟨_, beginFetch_serves account.waiting.turn wanted idle struck open' rfl counted kept⟩

/-- An initialization that has made a value completes its entry, and nothing else. -/
theorem finishFetch_serves (fetch : Fetch) (value : Value) {scope : Scope}
    (account : Task.Account contents roots others
      (surround machine.layers (.inside (.fetching fetch) (.node (.literal value) scope))) world) :
    Serves contents ((surround machine.layers (.inside (.fetching fetch) (.node (.literal value) scope))).stakes none)
      world (machine.finishFrame (.fetching fetch) value world) [] := by
  have stored := (machine.finishFetch_advances fetch value world account).2
  have complete : ((machine.finishFrame (.fetching fetch) value world).2.registry.get? fetch.key.type
      fetch.key).isSome := Option.isSome_iff_exists.mpr ⟨value, stored⟩
  have others : ∀ key : Key, key ≠ fetch.key →
      (machine.finishFrame (.fetching fetch) value world).2.registry.get? key.type key =
        world.registry.get? key.type key := by
    intro key different
    simp only [finishFrame, World.unlink, World.settle, World.Goes.wakeAll_registry]
    exact (Registry.get?_unlink _ _).trans (Registry.get?_settle_other different)
  have settled : (world.settle fetch.key ⟨fetch.type.typeName, value⟩).begun = world.begun :=
    (World.Calm.wakeAll _ _).begun
  have counted : (machine.finishFrame (.fetching fetch) value world).2.registry.initializations =
      world.registry.initializations := by
    simp only [finishFrame, World.unlink, World.settle, World.Goes.wakeAll_registry]
    cases fetch.scope.owner <;> rfl
  have inner : (Task.inside (.fetching fetch) (.node (.literal value) scope)).stakes (ownerWithin machine.layers) =
      {(ownerWithin machine.layers, .turn fetch)} := by
    simp [Frame.stakes, Node.references]
  refine ⟨by rw [List.append_nil]; exact settled, counted, Nat.zero_le _,
    fun key member => absurd member List.not_mem_nil, fun key done => ?_, fun _ => ?_⟩
  · by_cases same : key = fetch.key
    · subst same
      refine .inr ?_
      rw [stakes_surround, inner, Stakes.turns_add]
      exact .inl (Stakes.turns_singleton.mpr rfl)
    · exact .inl (others key same ▸ done)
  · have whole : (machine.finishFrame (.fetching fetch) value world).1.whole =
        surround machine.layers (.node (.literal value) (.root .default)) := rfl
    rw [whole]
    refine .surrounded ⟨fun owner key want => .inr ?_, fun key turns => .inr ?_,
      fun key member => absurd member List.not_mem_nil, fun key turns => absurd turns (idle_pending _ _ _ _),
      fun key member => absurd member List.not_mem_nil⟩
    · rw [inner] at want
      obtain ⟨_, rfl⟩ := Stakes.wants_singleton.mp want
      exact complete
    · rw [inner] at turns
      obtain rfl := Stakes.turns_singleton.mp turns
      exact complete

theorem serves_of_quietly {meanings : Lookup → Prop} (quietly : Quietly meanings task world result) :
    Serves contents (task.stakes none) world result [] :=
  .of_inert (.of_calm quietly.calm) fun _ => quietly.alike.stakes none

theorem pollTask_serves (machine : Machine) (task : Task) (world : World)
    (account : Task.Account contents roots others (surround machine.layers task) world) :
    ∃ keys, Serves contents ((surround machine.layers task).stakes none) world (machine.pollTask task world) keys := by
  by_cases alone : ¬ Consults task
  · exact ⟨[], serves_of_quietly (machine.pollTask_quiet task world alone account.sound)⟩
  · rw [not_not] at alone
    unfold Consults at alone
    split at alone
    next type name scope => exact dereference_serves type name scope account
    next fetch ticket => exact awaken_serves fetch ticket account
    next => exact absurd alone id

/-- What every step does for what is at stake. -/
theorem step_serves {after : Machine} {later : World} (account : machine.Account contents roots others world)
    (step : machine.step world = some (after, later)) :
    ∃ keys, Serves contents (machine.whole.stakes none) world (after, later) keys := by
  obtain ⟨whole, _⟩ := account
  generalize (after, later) = result at step ⊢
  cases step_steps step with
  | poll => exact pollTask_serves _ _ world whole
  | @rest operation task layer layers =>
    exact ⟨[], serves_of_quietly (restIn_quiet ⟨operation, .rest task, layers⟩ layer task world whole.sound)⟩
  | @finish operation value layer layers =>
    by_cases free : ∀ fetch, layer ≠ .inside (.fetching fetch)
    · exact ⟨[], serves_of_quietly
        (finishIn_quiet ⟨operation, .finish (.ok value), layers⟩ layer value world free whole.sound)⟩
    · simp only [ne_eq, not_forall, not_not] at free
      obtain ⟨fetch, rfl⟩ := free
      exact ⟨[], @finishFetch_serves contents roots others ⟨operation, .finish (.ok value), layers⟩ world fetch
        value _ whole⟩
  | @fail _ error layer => exact ⟨[], .of_inert (.failIn layer world) fun alive => absurd rfl (alive error)⟩

end Machine

end Blueprint
