import Blueprint.Proofs.Machine.Failing
import Blueprint.Proofs.System.Every
/-! Errors tell where they arose. An operation is always at the place to which its path leads from where its call
began, so the path of an error leads to the place that failed. -/

namespace Blueprint

namespace Call

/-- The path of the place where a call begins: that of its scope, and for a field that of the field. -/
def base : Call → Path
  | resolve config _ => (Scope.root config).path
  | within scope (.node _) | within scope (.variant _ _) => scope.path
  | within scope (.field _ name _) => scope.path.child (.field name)

/-- The place where a call begins. -/
def place : Call → Place
  | resolve _ node | within _ (.node node) => node.place
  | within _ (.field entity name slot) => slot.place entity name
  | within _ (.variant _ shell) => shell.place

end Call

/-- The path of a task leads from some place to the one that the task is at. -/
def located (contents : Contents) (base : Path) (start : Place) : Demand := fun _ task =>
  ∀ path place, task.site? = some (path, place) → base.Leads contents start path place

section Located

variable {contents : Contents} {base : Path} {start : Place} {owner : Option Key}

theorem located_of_site {task : Task} {path : Path} {place : Place} (site : task.site? = some (path, place))
    (leads : base.Leads contents start path place) : located contents base start owner task := by
  intro other found same
  cases site.symm.trans same
  exact leads

/-- A task that is at a place is a simple one. -/
theorem Task.Every.at_site {demand : Demand} {task : Task} {site : Path × Place} (every : task.Every demand owner)
    (placed : task.site? = some site) : demand owner task := by
  cases task with
  | node | shell | variant | field | waiting => exact every
  | delay | forever | inside | join | fan => cases placed

theorem located_node {node : Node} {scope : Scope} (leads : base.Leads contents start scope.path node.place) :
    located contents base start owner (.node node scope) := by
  cases node with
  | literal value => exact fun path place site => nomatch site
  | reference | nested => exact located_of_site rfl leads

/-- Every task that comes of another one is at a place that its path leads to, one segment further down if the
path is longer. -/
theorem located_handedOn (contents : Contents) (base : Path) (start : Place) :
    (located contents base start).HandedOn contents where
  literal _ _ _ := fun _ _ site => nomatch site
  nested known := known
  record known field planned := by
    refine located_of_site rfl ((known _ _ rfl).child _ ?_)
    exact Option.map_eq_some_iff.mpr ⟨field.2, EntityType.get?_of_mem_plan planned, rfl⟩
  union known := known
  variant known := known
  stalled _ := fun _ _ site => nomatch site
  delayed known := located_node (known _ _ rfl)
  required known := located_node (known _ _ rfl)
  optional known := located_node (known _ _ rfl)
  repeated known position inside :=
    located_node ((known _ _ rfl).child _ (by simp [Slot.place, Place.below?, inside]))
  keyed known position inside := by
    have pair := (known _ _ rfl).child (.index position)
      (by simp only [Slot.place, Place.below?, List.getElem?_eq_getElem inside]; rfl)
    exact ⟨located_node (pair.child _ rfl), located_node (pair.child _ rfl)⟩
  fetch known _ _ := located_of_site rfl (known _ _ rfl)
  begin known found := by
    refine located_node ((known _ _ rfl).child _ ?_)
    exact (if_pos rfl).trans (Option.map_eq_some_iff.mpr ⟨_, found, rfl⟩)

end Located

/-- Every task of an operation is at a place that its path leads to from where the call begins. -/
theorem located_lasting : Demand.Lasting fun contents call => located contents call.base call.place where
  begins contents call id world := by
    cases call with
    | resolve config node => exact located_node (.refl _ _ _)
    | within scope work =>
      cases work with
      | node node => exact located_node (.refl _ _ _)
      | field entity name slot => exact located_of_site rfl (.refl _ _ _)
      | variant tag shell => exact located_of_site rfl (.refl _ _ _)
  handed contents call := located_handedOn contents call.base call.place
  wider wider known path place site := (known path place site).mono wider

namespace System

variable {before after system : System} {action : Action}

/-- The step, at some time before a state, by which an operation came to fail, and the task it was at. -/
structure CameToFail (system : System) (id : Nat) (call : Call) (error : ResolveError) (before : System)
    (task : Task) : Prop where
  reachable : before.Reachable
  polled : ∃ operation machine, before.processes[id]? = some ⟨call, .looking operation machine⟩ ∧
    machine.control = .poll task
  failed : ∃ after phase, before.act? (.step id) = some after ∧ after.processes[id]? = some ⟨call, phase⟩ ∧
    phase.error? = some error ∧ Run (fun _ => True) after system

theorem CameToFail.later {id : Nat} {call : Call} {error : ResolveError} {first : System} {task : Task}
    (came : before.CameToFail id call error first task) (result : before.act? action = some after) :
    after.CameToFail id call error first task := by
  obtain ⟨next, phase, step, present, failing, run⟩ := came.failed
  exact ⟨came.reachable, came.polled, next, phase, step, present, failing, run.tail ⟨action, trivial, result⟩⟩

/-- An operation that fails at a place after an action did so before, or comes to fail in its step. -/
theorem Changes.fails {id : Nat} {process : Process} {phase : Phase} {later : World} {error : ResolveError}
    (changes : Changes system action id process phase later) (failing : phase.error? = some error)
    (placed : error.path?.isSome) :
    process.phase.error? = some error ∨
      ∃ operation machine next, process.phase = .looking operation machine ∧ action = .step id ∧
        ¬ machine.Fails error ∧ machine.step system.world = some (next, later) ∧ next.Fails error := by
  cases changes with
  | look present => cases failing
  | step present step =>
    rename_i call operation machine next
    by_cases fails : machine.Fails error
    · exact .inl (error?_looking operation fails)
    · exact .inr ⟨operation, machine, next, rfl, rfl, fails, step, control_of_error? failing⟩
  | conclude present idle =>
    rename_i call operation machine
    rcases Operation.conclude_cases idle with ⟨task, deadline, later, _, _, same⟩ | ⟨result, later, same, ended⟩
    · rw [same] at failing
      cases failing
    · rw [same] at failing
      cases result with
      | ok value => cases failing
      | error own =>
        cases failing
        rcases ended with finished | ⟨length, late⟩
        · exact .inl (error?_looking operation finished)
        · cases late
          cases placed
  | drop present => cases failing

/-- What is known of an operation that fails at a path: how it came to fail, and that the place that it was at
then is the one to which the path leads. -/
def Explained (system : System) (id : Nat) (call : Call) (error : ResolveError) (path : Path) : Prop :=
  ∃ before task place, system.CameToFail id call error before task ∧ task.site? = some (path, place) ∧
    call.base.Leads before.registered call.place path place ∧
    error.ArisesAt before.registered before.world.registry.waits path place

theorem Explained.later {id : Nat} {call : Call} {error : ResolveError} {path : Path}
    (explained : before.Explained id call error path) (result : before.act? action = some after) :
    after.Explained id call error path := by
  obtain ⟨first, task, place, came, known⟩ := explained
  exact ⟨first, task, place, came.later result, known⟩

/-- The step in which an operation comes to fail explains the failure. -/
theorem Reachable.explained_of_step (reachable : before.Reachable) {id : Nat} {call : Call} {phase : Phase}
    {operation : Operation} {machine next : Machine} {later : World} {error : ResolveError} {path : Path}
    (result : before.act? (.step id) = some after)
    (ahead : before.processes[id]? = some ⟨call, .looking operation machine⟩) (fine : ¬ machine.Fails error)
    (step : machine.step before.world = some (next, later)) (fails : next.Fails error)
    (present : after.processes[id]? = some ⟨call, phase⟩) (failing : phase.error? = some error)
    (told : error.path? = some path) : after.Explained id call error path := by
  obtain ⟨others, account⟩ := reachable.orderly.account ahead
  obtain ⟨task, polled, own, place, site, arises⟩ := Machine.step_fault account fine step fails
  cases told.symm.trans arises.path?
  have every := reachable.every located_lasting _ (List.mem_of_getElem? ahead)
  obtain ⟨number, control, layers⟩ := machine
  cases polled
  have leads := (every_surround.mp every).1.at_site site
  exact ⟨before, task, place, ⟨reachable, ⟨operation, _, ahead, rfl⟩, after, phase, result, present, failing, .refl⟩,
    site, leads path place site, arises⟩

theorem Reachable.explained (reachable : system.Reachable) {id : Nat} {call : Call} {phase : Phase}
    {error : ResolveError} {path : Path} (present : system.processes[id]? = some ⟨call, phase⟩)
    (failing : phase.error? = some error) (told : error.path? = some path) :
    system.Explained id call error path := by
  induction reachable generalizing phase with
  | refl => cases present
  | tail run step ih =>
    obtain ⟨action, _, result⟩ := step
    rcases (act?_acts result).process_cases present with old | ⟨_, begun⟩ | ⟨process, later, rfl, changes⟩
    · exact (ih old failing).later result
    · subst begun
      cases failing
    · rcases changes.fails failing (by rw [told]; rfl) with
        before | ⟨operation, machine, next, looking, rfl, fine, step, fails⟩
      · exact (ih changes.present before).later result
      · obtain ⟨call, phase⟩ := process
        subst looking
        exact Reachable.explained_of_step run result changes.present fine step fails present failing told

/-- The path of an error is a true location. Whenever an operation has returned an error with a path, the path
begins with that of the scope of its call; read from the node that was to be resolved, the rest of it leads
through what is registered to a place; and that is the place that the operation was at in the step by which it
came to fail, whatever others did before or meanwhile: a required field of the entity and the name in the error
that was never set, a reference to the type and the name in the error under which nothing was registered, or
the reference that would have closed the circle of waits in the error. -/
theorem Reachable.failed_where_told (reachable : system.Reachable) {id : Nat} {call : Call} {error : ResolveError}
    {path : Path} (returned : system.processes[id]? = some ⟨call, .returned (.error error)⟩)
    (told : error.path? = some path) :
    ∃ before task segments place, system.CameToFail id call error before task ∧
      task.site? = some (path, place) ∧ path.segments = call.base.segments ++ segments ∧
      call.place.walk? before.registered segments = some place ∧
      error.ArisesAt before.registered before.world.registry.waits path place := by
  obtain ⟨before, task, place, came, site, ⟨segments, begins, walked⟩, arises⟩ :=
    reachable.explained returned rfl told
  exact ⟨before, task, segments, place, came, site, begins, walked, arises⟩

/-- A deferred entry whose password was never set, resolved twice, the second time under a longer path. -/
def triedTwice : List Action :=
  [.register ⟨EntityType.auth.typeName, "ci"⟩ (.deferred (.node EntityType.auth.typeName
      (.nested (.record .auth
        [("username", .required (some (.literal (.text "bot")))), ("password", .required none)])))),
    .start (.resolve .default (.reference .auth "ci"))] ++ List.replicate 14 (.step 0) ++
  [.start (.within ⟨.default, ⟨[.field "left"]⟩, none⟩ (.node (.reference .auth "ci")))] ++
  List.replicate 14 (.step 1)

/-- Where the second resolution finds that the password was never set. -/
def leftPassword : Path := ⟨[.field "left", .reference "Auth(\"ci\")", .field "password"]⟩

theorem failed_where_told_tried_twice :
    (following triedTwice).processes[1]? =
      some ⟨.within ⟨.default, ⟨[.field "left"]⟩, none⟩ (.node (.reference .auth "ci")),
        .returned (.error (.missingField "Auth" "password" leftPassword))⟩ ∧
    ∃ (before : System) (segments : List Segment) (place : Place), before.Reachable ∧
      leftPassword.segments = [.field "left"] ++ segments ∧
      (Place.reference .auth "ci").walk? before.registered segments = some place ∧
      (ResolveError.missingField "Auth" "password" leftPassword).ArisesAt before.registered
        before.world.registry.waits leftPassword place := by
  have reachable : (following triedTwice).Reachable := run_of_perform triedTwice (fun _ _ => trivial) rfl
  have returned : (following triedTwice).processes[1]? =
      some ⟨.within ⟨.default, ⟨[.field "left"]⟩, none⟩ (.node (.reference .auth "ci")),
        .returned (.error (.missingField "Auth" "password" leftPassword))⟩ := by
    rfl
  obtain ⟨before, _, segments, place, came, _, begins, walked, arises⟩ := reachable.failed_where_told returned rfl
  exact ⟨returned, before, segments, place, came.reachable, begins, walked, arises⟩

end System

end Blueprint
