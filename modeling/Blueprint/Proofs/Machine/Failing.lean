import Blueprint.Proofs.Machine.Advance
import Blueprint.Proofs.Place
/-! How a machine comes to fail. Only a required field that was never set and a reference can fail, and the error
names the path of the place that the machine is at when it does. -/

namespace Blueprint

/-- The path and the place that a simple task is at. A literal has none, since it may be what any task has come
to. -/
def Task.site? : Task → Option (Path × Place)
  | .node (.literal _) _ => none
  | .node own scope => some (scope.path, own.place)
  | .shell own scope | .variant _ own scope => some (scope.path, own.place)
  | .field entity name slot scope => some (scope.path.child (.field name), slot.place entity name)
  | .waiting fetch _ => some (fetch.scope.path, .reference fetch.type fetch.name)
  | .delay _ _ _ | .forever | .inside _ _ | .join _ | .fan _ => none

/-- What an error says of the place at which it arises, under what is registered and the waits there are:
a required field that was never set; a reference to a key under which nothing is registered; a reference
that would close a circle of waits, on behalf of the entry that the path has entered last; a reference to
a deferred entry without a node of its type. -/
inductive ResolveError.ArisesAt (contents : Contents) (waits : WaitGraph) (path : Path) :
    Place → ResolveError → Prop where
  | unset {entity field : String} : ArisesAt contents waits path (.unset entity field) (.missingField entity field path)
  | unregistered {type : EntityType} {name : String} (absent : contents.origin? (Node.keyOf type name) = none) :
      ArisesAt contents waits path (.reference type name) (.unresolvedReference type.typeName.short name path)
  | cycle {type : EntityType} {name : String} {owner : Key} {chain : List Key}
      (closes : waits.Closes owner (Node.keyOf type name) chain) (within : path.lastReference? = some owner.text) :
      ArisesAt contents waits path (.reference type name) (.referenceCycle (chain.map Key.text) path)
  | mismatch {type : EntityType} {name : String} {payload : Payload}
      (registered : contents.origin? (Node.keyOf type name) = some (.deferred payload))
      (unusable : contents.node? (Node.keyOf type name) = none) :
      ArisesAt contents waits path (.reference type name)
        (.registry (.about .typeMismatch (Node.keyOf type name)) path)

theorem ResolveError.ArisesAt.path? {contents : Contents} {waits : WaitGraph} {path : Path} {place : Place}
    {error : ResolveError} (arises : error.ArisesAt contents waits path place) : error.path? = some path := by
  cases arises <;> rfl

/-- An error arises at the place that a task is at. -/
def Task.Fault (contents : Contents) (waits : WaitGraph) (task : Task) (error : ResolveError) : Prop :=
  ∃ path place, task.site? = some (path, place) ∧ error.ArisesAt contents waits path place

namespace Machine

variable {contents : Contents} {roots : List Key} {others : Multiset Hold} {machine : Machine} {world : World}
  {error : ResolveError}

/-- The machine is leaving a task that failed. -/
def Fails (machine : Machine) (error : ResolveError) : Prop :=
  machine.control = .finish (.error error)

@[simp] theorem not_fails_poll (task : Task) : ¬ (machine.poll task).Fails error := by
  simp [Fails]

@[simp] theorem not_fails_pollWithin (layer : Layer) (task : Task) : ¬ (machine.pollWithin layer task).Fails error := by
  simp [Fails]

@[simp] theorem not_fails_rest (task : Task) : ¬ (machine.rest task).Fails error := by
  simp [Fails]

@[simp] theorem not_fails_finish (value : Value) : ¬ (machine.finish (.ok value)).Fails error := by
  simp [Fails]

@[simp] theorem fails_finish {own : ResolveError} : (machine.finish (.error own)).Fails error ↔ own = error := by
  simp [Fails]

theorem not_fails_sleep (delay : Nat) (next : Task) : ¬ (machine.sleep delay next world).1.Fails error := by
  unfold sleep
  split <;> simp

theorem not_fails_nextPart (before after : List (Part Task)) : ¬ (machine.nextPart before after).Fails error := by
  induction after generalizing before with
  | nil =>
    unfold nextPart
    split <;> simp
  | cons part later ih =>
    cases part with
    | done value => exact ih _
    | running task => exact not_fails_pollWithin _ _

theorem not_fails_nextStage (type : EntityType) (scope : Scope) (done : List (String × Value))
    (stages : List (List (String × Slot))) : ¬ (machine.nextStage type scope done stages).Fails error := by
  cases stages <;> simp [nextStage]

theorem not_fails_nextElement (fan : Fan Task) (tally : Tally) :
    ¬ (machine.nextElement fan tally world).1.Fails error := by
  unfold nextElement
  split
  · split <;> simp
  · split <;> simp

theorem not_fails_restIn (layer : Layer) (task : Task) : ¬ (machine.restIn layer task world).1.Fails error := by
  unfold restIn
  split
  · simp
  · exact not_fails_nextPart _ _
  next fan position tally =>
    have goes : ∀ tally : Tally, ¬ (if 2 ≤ tally.yielded ∨ tally.polled = tally.total then
        (machine.rest (.fan { fan with running := (position, task) :: fan.running }),
          world.wake machine.strands)
        else machine.nextElement { fan with running := (position, task) :: fan.running } tally
          world).1.Fails error := by
      intro tally
      split
      · simp
      · exact not_fails_nextElement _ _
    exact goes _

theorem not_fails_finishIn (layer : Layer) (value : Value) : ¬ (machine.finishIn layer value world).1.Fails error := by
  unfold finishIn
  split
  next frame =>
    unfold finishFrame
    split
    · simp
    · simp
    · simp
    · simp
    · exact not_fails_nextStage _ _ _ _
  · exact not_fails_nextPart _ _
  · exact not_fails_nextElement _ _

/-- Of the fields only a required one fails that was never set. -/
theorem pollField_fault {entity name : String} {slot : Slot} {scope : Scope}
    (failing : (machine.pollField entity name slot (scope.field name) world).1.Fails error) (waits : WaitGraph) :
    (Task.field entity name slot scope).Fault contents waits error := by
  unfold pollField at failing
  split at failing
  · obtain rfl := fails_finish.mp failing
    exact ⟨_, _, rfl, .unset⟩
  all_goals simp at failing

theorem not_fails_pollShell (shell : Shell) (scope : Scope) :
    ¬ (machine.pollShell shell scope world).1.Fails error := by
  unfold pollShell
  split
  · exact not_fails_nextStage _ _ _ _
  · simp
  · exact not_fails_sleep _ _
  · simp
  · exact not_fails_sleep _ _

/-- An initialization that fails at once is one for which there is no node. -/
theorem beginFetch_fault {fetch : Fetch} (registered : contents.origin? fetch.key = some (.deferred fetch.payload))
    (failing : (machine.beginFetch fetch world).1.Fails error) (waits : WaitGraph) :
    error.ArisesAt contents waits fetch.scope.path (.reference fetch.type fetch.name) := by
  rcases beginFetch_cases machine fetch world registered with ⟨node, _, begins⟩ | ⟨unusable, begins⟩
  · simp [begins] at failing
  · rw [begins] at failing
    cases failing
    exact .mismatch registered unusable

/-- A reference that fails at once names nothing, would wait for itself, or names what cannot be initialized. -/
theorem dereference_fault {type : EntityType} {name : String} {scope : Scope}
    (account : Task.Account contents roots others
      (surround machine.layers (.node (.reference type name) scope)) world)
    (failing : (machine.dereference type name scope world).1.Fails error) :
    (Task.node (.reference type name) scope).Fault contents world.registry.waits error := by
  have pending := account.pending
  have arrives := account.arrives machine.strands
  unfold dereference at failing
  simp only [World.take, World.arrive] at failing
  generalize world.registry.arrive type.typeName (Node.keyOf type name) scope.owner
    ⟨world.fresh, machine.strands⟩ = outcome at arrives failing
  refine ⟨_, _, rfl, ?_⟩
  cases arrives with
  | missing absent =>
    obtain rfl := fails_finish.mp failing
    exact .unregistered absent
  | found => simp at failing
  | @cycle waiting chain made closes =>
    obtain rfl := fails_finish.mp failing
    exact .cycle closes (pending.inner waiting (pending.anchored.symm.trans made)).2.1
  | turn registered => exact beginFetch_fault registered failing _
  | queued => simp at failing

/-- A waiter that fails has the turn and finds that its entry cannot be initialized. -/
theorem awaken_fault {fetch : Fetch} {ticket : Nat}
    (account : Task.Account contents roots others (surround machine.layers (.waiting fetch ticket)) world)
    (failing : (machine.awaken fetch ticket world).1.Fails error) (waits : WaitGraph) :
    (Task.waiting fetch ticket).Fault contents waits error := by
  have resumes := account.resumes
  unfold awaken at failing
  simp only [World.resume] at failing
  generalize world.registry.resume fetch.type.typeName fetch.key ticket = outcome at resumes failing
  refine ⟨_, _, rfl, ?_⟩
  cases resumes with
  | waiting => simp at failing
  | found => simp at failing
  | turn => exact beginFetch_fault (account.waiting.waits fetch ticket rfl) failing _

theorem pollTask_fault {task : Task} (account : Task.Account contents roots others (surround machine.layers task) world)
    (failing : (machine.pollTask task world).1.Fails error) : task.Fault contents world.registry.waits error := by
  unfold pollTask at failing
  split at failing
  · simp at failing
  · exact dereference_fault account failing
  · simp at failing
  · exact absurd failing (not_fails_pollShell _ _)
  · simp at failing
  · exact pollField_fault failing _
  · split at failing <;> simp at failing
  · simp at failing
  · exact awaken_fault account failing _
  · simp at failing
  · exact absurd failing (not_fails_nextPart _ _)
  · exact absurd failing (not_fails_nextElement _ _)

/-- A machine that comes to fail in a step is at the place where the error arises. -/
theorem step_fault {after : Machine} {later : World} (account : machine.Account contents roots others world)
    (fine : ¬ machine.Fails error) (step : machine.step world = some (after, later)) (failing : after.Fails error) :
    ∃ task, machine.control = .poll task ∧ task.Fault contents world.registry.waits error := by
  change (after, later).1.Fails error at failing
  obtain ⟨whole, _⟩ := account
  generalize (after, later) = result at step failing
  cases step_steps step with
  | poll => exact ⟨_, rfl, pollTask_fault whole failing⟩
  | rest => exact absurd failing (not_fails_restIn _ _)
  | finish => exact absurd failing (not_fails_finishIn _ _)
  | fail => exact absurd failing fine

end Machine

end Blueprint
