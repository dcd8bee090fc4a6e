import Blueprint.Proofs.Locations
import Blueprint.Proofs.Registration
/-! A registry that is used only through resolvers and scopes. They put a value of the type of the key under it, or
a node to be resolved to one. So every entry holds what its key promises, and what the registry does about entries
that do not is never met. -/

namespace Blueprint

open Relation

/-- What a resolver puts under a key: a value of the type of the key, or a node of that type. -/
def Origin.Typed (key : Key) : Origin → Prop
  | .value _ => True
  | .deferred (.node type _) => type = key.type
  | .deferred (.text _) => False

/-- What is done through resolvers and scopes. -/
def Deed.Typed : Deed → Prop
  | .insert key origin => origin.Typed key
  | .publish _ _ _ | .conclude _ | .work _ => True

/-- What an entry holds that keeps what its key promises: a value stored as one of the type of the key, or a node
of that type; the payload is gone if the value is there, and only then. -/
structure Entry.Typed (key : Key) (entry : Entry) : Prop where
  stored : ∀ stored, entry.value = some stored → stored.type = key.type
  pending : ∀ payload, entry.payload = some payload → ∃ node, payload = .node key.type node
  kept : entry.payload = none ↔ entry.value.isSome

/-- All that is registered is of the types of its keys. -/
def Contents.Typed (contents : Contents) : Prop :=
  ∀ key origin, contents.origin? key = some origin → origin.Typed key

/-- Something of another type than expected was found in the registry. -/
def ResolveError.Mismatch (error : ResolveError) : Prop :=
  ∃ typeName key path, error = .registry (.typeMismatch typeName key) path

theorem Origin.Typed.node {key : Key} {payload : Payload} (typed : (Origin.deferred payload).Typed key) :
    ∃ node, payload = .node key.type node := by
  cases payload with
  | text => exact typed.elim
  | node type node =>
    obtain rfl : type = key.type := typed
    exact ⟨node, rfl⟩

namespace Contents.Typed

variable {contents more : Contents}

theorem mono (typed : more.Typed) (wider : contents.Extends more) : contents.Typed :=
  fun key origin found => typed key origin (wider key origin found)

/-- Every deferred entry has a node that can be resolved to a value of its type. -/
theorem usable (typed : contents.Typed) {key : Key} {payload : Payload}
    (found : contents.origin? key = some (.deferred payload)) : contents.node? key ≠ none := by
  obtain ⟨node, rfl⟩ := (typed key _ found).node
  rw [Contents.node?_eq_some_iff.mpr found]
  exact Option.some_ne_none node

/-- A reference to something that is registered fails only where deferred entries wait for each other. -/
theorem cycle_of_arises (typed : contents.Typed) {waits : WaitGraph} {path : Path} {type : EntityType}
    {name : String} {error : ResolveError} {origin : Origin}
    (arises : error.ArisesAt contents waits path (.reference type name))
    (found : contents.origin? (Node.keyOf type name) = some origin) :
    ∃ chain, error = .referenceCycle chain path := by
  cases arises with
  | unregistered absent => cases found.symm.trans absent
  | cycle closes => exact ⟨_, rfl⟩
  | mismatch registered unusable => exact absurd unusable (typed.usable registered)

theorem not_mismatch (typed : contents.Typed) {waits : WaitGraph} {path : Path} {place : Place}
    {error : ResolveError} (arises : error.ArisesAt contents waits path place) : ¬ error.Mismatch := by
  rintro ⟨typeName, key, other, rfl⟩
  cases arises with
  | mismatch registered unusable => exact typed.usable registered unusable

/-- An entry in a registry that agrees with what is registered and with the claims on it. -/
theorem entry (typed : contents.Typed) {key : Key} {entry : Entry} {claims : Multiset (Option Nat)}
    (fits : Fits contents key entry claims) : entry.Typed key := by
  cases fits with
  | complete =>
    refine ⟨fun stored same => ?_, fun payload same => (by cases same), ⟨fun _ => rfl, fun _ => rfl⟩⟩
    cases same
    rfl
  | deferred registered =>
    refine ⟨fun stored same => (by cases same), fun payload same => ?_,
      ⟨fun gone => (by cases gone), fun complete => (by cases complete)⟩⟩
    cases same
    exact (typed key _ registered).node

end Contents.Typed

namespace System

variable {before after system : System} {action : Action}

/-- What is registered stays registered. -/
theorem Run.extends {allowed : Action → Prop} (run : Run allowed before after) :
    before.registered.Extends after.registered := by
  induction run with
  | refl => exact .refl _
  | tail _ step ih =>
    obtain ⟨action, _, result⟩ := step
    exact ih.trans (act?_acts result).extends

/-- The task that answers a reference with its next step is at that reference. -/
theorem site_of_reference {machine : Machine} {task : Task} {key : Key} (follows : machine.reference? = some key)
    (polled : machine.control = .poll task) {path : Path} {place : Place} (site : task.site? = some (path, place)) :
    ∃ type name, key = Node.keyOf type name ∧ place = .reference type name := by
  unfold Machine.reference? at follows
  split at follows
  next =>
    cases follows
    cases polled
    cases site
    exact ⟨_, _, rfl, rfl⟩
  next =>
    cases follows
    cases polled
    cases site
    exact ⟨_, _, rfl, rfl⟩
  next => cases polled
  next => cases follows

variable (typed : system.registered.Typed) (reachable : system.Reachable)

include typed reachable

/-- An operation neither ends nor is about to end because something is of another type than expected. -/
theorem Reachable.not_mismatch {process : Process} (member : process ∈ system.processes) {error : ResolveError}
    (failing : process.phase.error? = some error) : ¬ error.Mismatch := by
  intro mismatch
  obtain ⟨id, present⟩ := List.mem_iff_getElem?.mp member
  obtain ⟨typeName, key, path, rfl⟩ := mismatch
  obtain ⟨before, task, place, came, _, _, arises⟩ := reachable.explained present failing rfl
  obtain ⟨after, phase, step, _, _, run⟩ := came.failed
  have wider := (act?_acts step).extends.trans (Run.extends run)
  exact (typed.mono wider).not_mismatch arises ⟨typeName, key, path, rfl⟩

/-- A step that would answer a reference to something that is registered fails only because of a cycle. -/
theorem Reachable.step_cycle {id : Nat} {operation : Operation} {machine next : Machine} {later : World} {key : Key}
    {error : ResolveError} (looking : system.phase? id = some (.looking operation machine))
    (follows : machine.reference? = some key) (registered : system.world.registry.contains key)
    (step : machine.step system.world = some (next, later)) (failed : next.control = .finish (.error error)) :
    ∃ chain path, error = .referenceCycle chain path := by
  obtain ⟨call, present⟩ := process_of_phase looking
  obtain ⟨others, account⟩ := reachable.orderly.account present
  -- a machine that only hands an error on answers no reference
  have fine : ¬ machine.Fails error := by
    intro fails
    obtain ⟨number, control, layers⟩ := machine
    cases fails
    cases follows
  obtain ⟨task, polled, path, place, site, arises⟩ := Machine.step_fault account fine step failed
  obtain ⟨type, name, rfl, rfl⟩ := site_of_reference follows polled site
  obtain ⟨⟨_, origin⟩, listed, rfl⟩ := List.mem_map.mp ((contains_iff reachable.orderly).mp registered)
  have found : system.registered.origin? (Node.keyOf type name) = some origin :=
    OrderedMap.get?_of_mem reachable.orderly.ledger.distinct listed
  obtain ⟨chain, rfl⟩ := typed.cycle_of_arises arises found
  exact ⟨chain, path, rfl⟩

end System

namespace Journal

variable {before after journal : Journal} {deed : Deed}

/-- The states that come of what is done through resolvers and scopes. -/
def Typed (journal : Journal) : Prop :=
  ReflTransGen (fun before after => ∃ deed : Deed, deed.Typed ∧ before.do? deed = some after) initial journal

theorem Typed.reachable (typed : journal.Typed) : journal.Reachable := by
  induction typed with
  | refl => exact .refl
  | tail _ step ih =>
    obtain ⟨deed, _, result⟩ := step
    exact ih.tail ⟨deed, result⟩

theorem Does.origins (does : before.Does deed after) (typed : deed.Typed)
    (origins : ∀ insertion ∈ before.insertions, insertion.origin.Typed insertion.key) :
    ∀ insertion ∈ after.insertions, insertion.origin.Typed insertion.key := by
  have grows : ∀ {publication : Option Nat} {key : Key} {origin : Origin} {next : Journal},
      before.insert? publication key origin = some next → origin.Typed key →
      ∀ insertion ∈ next.insertions, insertion.origin.Typed insertion.key := by
    intro publication key origin next inserted own insertion member
    obtain ⟨_, result, added⟩ := insert?_act? inserted
    rw [added] at member
    rcases List.mem_append.mp member with old | new
    · exact origins insertion old
    · rw [List.mem_singleton.mp new]
      exact own
  cases does with
  | inserts inserted => exact grows inserted typed
  | begins | fails | works => exact origins
  | publishes _ _ inserted =>
    have known := grows inserted trivial
    exact known

/-- Whatever anybody tries to register is of the type of its key. -/
theorem Typed.origins (typed : journal.Typed) :
    ∀ insertion ∈ journal.insertions, insertion.origin.Typed insertion.key := by
  induction typed with
  | refl => exact fun insertion member => nomatch member
  | tail _ step ih =>
    obtain ⟨deed, own, result⟩ := step
    exact (do?_does result).origins own ih

theorem Typed.contents (typed : journal.Typed) : journal.system.registered.Typed := by
  intro key origin found
  have listed := OrderedMap.mem_of_get? found
  rw [typed.reachable.sound.registered] at listed
  obtain ⟨insertion, accepted, same⟩ := List.mem_map.mp listed
  cases same
  exact typed.origins insertion (List.mem_of_mem_filter accepted)

/-- Through resolvers and scopes, nobody ever meets an entry that does not hold what its key promises. In every
state that can be reached, whatever fails, is dropped, or has the same name under another type:
no operation ends or is about to end because something is of another type than expected, no publication has such
an outcome, and no registration such a result;
a step that would answer a reference to something that is registered fails only because deferred entries wait for
each other;
if an operation returned that a reference names nothing registered, nothing was registered under its key when it
was followed;
every entry holds a value of the type of its key, or a node of that type, and the payload is gone if the value is
there, and only then. -/
theorem Typed.entries_keep_promises (typed : journal.Typed) :
    ((∀ process ∈ journal.system.processes, ∀ error, process.phase.error? = some error → ¬ error.Mismatch) ∧
      (∀ publication ∈ journal.publications, ∀ error, publication.outcome = some (.error error) → ¬ error.Mismatch) ∧
      ∀ insertion ∈ journal.insertions, ∀ typeName key, insertion.result ≠ .error (.typeMismatch typeName key)) ∧
    (∀ id operation machine key next later error,
      journal.system.phase? id = some (.looking operation machine) → machine.reference? = some key →
        journal.system.world.registry.contains key → machine.step journal.system.world = some (next, later) →
          next.control = .finish (.error error) → ∃ chain path, error = .referenceCycle chain path) ∧
    (∀ id call typeName name path, journal.system.processes[id]? =
        some ⟨call, .returned (.error (.unresolvedReference typeName name path))⟩ →
      ∃ before task type, journal.system.CameToFail id call (.unresolvedReference typeName name path) before task ∧
        typeName = type.typeName.short ∧ task.site? = some (path, .reference type name) ∧
        ¬ before.world.registry.contains (Node.keyOf type name)) ∧
    ∀ key entry, journal.system.world.registry.entry? key = some entry → entry.Typed key := by
  have sound := typed.reachable.sound
  have reachable := sound.reachable
  have never : ∀ process ∈ journal.system.processes, ∀ error, process.phase.error? = some error →
      ¬ error.Mismatch := fun process member error => reachable.not_mismatch typed.contents member
  refine ⟨⟨never, fun publication member error outcome mismatch => ?_,
      fun insertion member typeName key mismatch => ?_⟩,
    fun id operation machine key next later error => reachable.step_cycle typed.contents,
    fun id call typeName name path returned => ?_,
    fun key entry found => typed.contents.entry (reachable.orderly.ledger.fits key entry found)⟩
  · obtain ⟨index, present⟩ := List.mem_iff_getElem?.mp member
    cases sound.stands index publication present with
    | begun | published => cases outcome
    | failed returned =>
      cases outcome
      obtain ⟨call, process⟩ := System.process_of_phase returned
      exact never _ (List.mem_of_getElem? process) error rfl mismatch
    | refused =>
      cases outcome
      obtain ⟨_, _, _, same⟩ := mismatch
      cases same
  · obtain ⟨index, present⟩ := List.mem_iff_getElem?.mp member
    have judged := sound.ordered index insertion present
    rw [mismatch] at judged
    unfold Insertion.verdict at judged
    split at judged <;> cases judged
  · obtain ⟨before, task, place, came, site, _, arises⟩ := reachable.explained returned rfl rfl
    cases arises with
    | @unregistered type _ absent =>
      refine ⟨before, task, type, came, rfl, site, fun present => ?_⟩
      obtain ⟨item, listed, same⟩ := List.mem_map.mp ((System.contains_iff came.reachable.orderly).mp present)
      exact OrderedMap.get?_eq_none_iff.mp absent (List.mem_map.mpr ⟨item, listed, same⟩)

/-- Deeds through resolvers and scopes, one after another, lead to such a state. -/
theorem typed_of_perform (deeds : List Deed) (each : ∀ deed ∈ deeds, deed.Typed) (typed : before.Typed)
    (result : before.perform deeds = some after) : after.Typed := by
  induction deeds generalizing before with
  | nil =>
    cases result
    exact typed
  | cons deed rest ih =>
    obtain ⟨next, first, later⟩ := Option.bind_eq_some_iff.mp result
    exact ih (fun other member => each other (List.mem_cons_of_mem _ member))
      (typed.tail ⟨deed, each deed List.mem_cons_self, first⟩) later

/-- One name for a number, for a text that is made later, and for an entity whose password was never set. The last
two are resolved, and so is a reference to a type under which the name is not registered. -/
def sharedName : List Deed :=
  [.insert (Node.keyOf .number "ci") (.value (.number 7)),
    .insert (Node.keyOf .text "ci") (.deferred (.node EntityType.text.typeName (.literal (.text "bot")))),
    .insert (Node.keyOf .auth "ci") (.deferred (.node EntityType.auth.typeName (.nested (.record .auth
      [("username", .required (some (.literal (.text "bot")))), ("password", .required none)])))),
    .work (.start (.resolve .default (.reference .auth "ci")))] ++ List.replicate 14 (.work (.step 0)) ++
  [.work (.start (.resolve .default (.reference .text "ci")))] ++ List.replicate 4 (.work (.step 1)) ++
  [.publish .default (.reference .job "ci") (Node.keyOf .number "ci")] ++ List.replicate 2 (.work (.step 2)) ++
  [.conclude 0]

theorem entries_keep_promises_sharedName :
    (following sharedName).system.processes.map (fun process => process.phase.error?) =
      [some (.missingField "Auth" "password" ⟨[.reference "Auth(\"ci\")", .field "password"]⟩), none,
        some (.unresolvedReference "Job" "ci" .root)] ∧
      (∃ (before : System) (type : EntityType), before.Reachable ∧ "Job" = type.typeName.short ∧
        ¬ before.world.registry.contains (Node.keyOf type "ci")) ∧
      ∀ key entry, (following sharedName).system.world.registry.entry? key = some entry → entry.Typed key := by
  have each : ∀ deed ∈ sharedName, deed.Typed := by
    simp [sharedName, Deed.Typed, Origin.Typed, Node.keyOf, or_imp, forall_and]
  have typed : (following sharedName).Typed := typed_of_perform sharedName each .refl rfl
  obtain ⟨_, _, unresolved, entries⟩ := typed.entries_keep_promises
  obtain ⟨before, _, type, came, named, _, absent⟩ :=
    unresolved 2 (.resolve .default (.reference .job "ci")) "Job" "ci" .root (by rfl)
  exact ⟨by rfl, ⟨before, type, came.reachable, named, absent⟩, entries⟩

end Journal

end Blueprint
