import Blueprint.Proofs.Initialization
import Blueprint.Session.Running
/-! Registrations that compete. Values and payloads are put under keys, and resolutions end by putting their
values under keys, in any order among the steps of all operations. The first to reach a key has it for
good, and everybody else is told so. -/

namespace Blueprint

/-- Put the result of a resolution under a key, and say what its caller gets. -/
def World.publish (key : Key) (result : Except ResolveError Value) (world : World) :
    Except ResolveError Value × World :=
  match result with
  | .error error => (.error error, world)
  | .ok value =>
    match world.register key (.complete ⟨key.type, value⟩) with
    | (.ok _, world) => (.ok value, world)
    | (.error error, world) => (.error (.ofRegistry error .root), world)

theorem World.publish_ok (key : Key) (value : Value) (world : World) :
    (world.publish key (.ok value)).1 =
      ((world.register key (.complete ⟨key.type, value⟩)).1.map fun _ => value).mapError (.ofRegistry · .root) := by
  dsimp only [World.publish]
  generalize world.register key (.complete ⟨key.type, value⟩) = registered
  obtain ⟨accepted, later⟩ := registered
  cases accepted <;> rfl

/-- A session does just that with the result of a resolution that is to be registered. -/
theorem Session.State.useResult_register (state : Session.State) (index : Nat) (key : Key)
    (result : Except ResolveError Value) :
    let published := World.publish key result { state.world with registry := state.registry index, events := [] }
    (state.useResult index (.register key) result).1 = .value (published.1.mapError .resolve) ∧
      (state.useResult index (.register key) result).2.registries =
        state.registries.set index published.2.registry := by
  cases result with
  | error error =>
    refine ⟨rfl, List.ext_getElem? fun position => ?_⟩
    rw [List.getElem?_set]
    split
    next same =>
      subst same
      by_cases inside : index < state.registries.length
      · simp [Session.State.useResult, Session.State.registry, World.publish, List.getD, inside]
      · simp [Session.State.useResult, inside]
    next => rfl
  | ok value =>
    simp only [World.publish, Session.State.useResult, Session.State.register, Session.State.act]
    generalize World.register _ key (Entry.complete ⟨key.type, value⟩) = registered
    obtain ⟨accepted, world⟩ := registered
    cases accepted <;> exact ⟨rfl, rfl⟩

/-- An attempt to put something under a key, and what came of it. -/
structure Insertion where
  key : Key
  origin : Origin
  /-- the publication that it belongs to, if any -/
  publication : Option Nat
  result : Except RegistryError Unit

/-- A resolution whose value is to be put under a key. -/
structure Publication where
  /-- the number of the operation that resolves -/
  operation : Nat
  key : Key
  /-- what its caller got, once it is over -/
  outcome : Option (Except ResolveError Value)

/-- Operations on one registry with all that anybody ever tried to put into it. -/
structure Journal where
  system : System
  /-- in the order in which they reached the registry -/
  insertions : List Insertion
  publications : List Publication

/-- What can happen next. -/
inductive Deed where
  | insert (key : Key) (origin : Origin)
  | publish (config : Config) (node : Node) (key : Key)
  /-- the resolution of a publication has returned, and its result is put to use -/
  | conclude (index : Nat)
  /-- whatever operations and time do -/
  | work (action : Action)

/-- What becomes of an attempt after others. -/
def Insertion.verdict (earlier : List Insertion) (key : Key) : Except RegistryError Unit :=
  if key ∈ earlier.map Insertion.key then .error (.about .alreadyRegistered key) else .ok ()

/-- Each attempt came to what those before it made of it. -/
def Insertion.Ordered (insertions : List Insertion) : Prop :=
  ∀ index insertion, insertions[index]? = some insertion →
    insertion.result = verdict (insertions.take index) insertion.key

namespace Journal

/-- Nothing registered and nothing begun. -/
def initial : Journal := ⟨.initial, [], []⟩

/-- The attempts that were accepted. -/
def accepted (journal : Journal) : List Insertion :=
  journal.insertions.filter fun insertion => insertion.result.toBool

/-- The attempts that belong to a publication. -/
def made (journal : Journal) (index : Nat) : List Insertion :=
  journal.insertions.filter fun insertion => insertion.publication = some index

/-- The state after an attempt to put something under a key. -/
def insert? (journal : Journal) (publication : Option Nat) (key : Key) (origin : Origin) : Option Journal :=
  (journal.system.act? (.register key origin)).map fun system =>
    { journal with
      system
      insertions := journal.insertions ++
        [⟨key, origin, publication, (journal.system.world.register key (origin.entry key)).1⟩] }

/-- A publication is over. -/
def answer (journal : Journal) (index : Nat) (outcome : Except ResolveError Value) : Journal :=
  { journal with publications := journal.publications.modify index fun publication =>
      { publication with outcome := some outcome } }

/-- The state after a deed, if the deed is possible. -/
def do? (journal : Journal) : Deed → Option Journal
  | .insert key origin => journal.insert? none key origin
  | .publish config node key =>
    (journal.system.act? (.start (.resolve config node))).map fun system =>
      { journal with
        system
        publications := journal.publications ++ [⟨journal.system.processes.length, key, none⟩] }
  | .conclude index =>
    match journal.publications[index]? with
    | some ⟨id, key, none⟩ =>
      match journal.system.phase? id with
      | some (.returned result) =>
        let outcome := (journal.system.world.publish key result).1
        match result with
        | .error _ => some (journal.answer index outcome)
        | .ok value =>
          (journal.insert? (some index) key (.value value)).map fun journal => journal.answer index outcome
      | _ => none
    | _ => none
  | .work (.register _ _) => none
  | .work action => (journal.system.act? action).map fun system => { journal with system }

/-- One deed leads from the first state to the second. -/
def Step (before after : Journal) : Prop :=
  ∃ deed, before.do? deed = some after

/-- A run leads from the first state to the second. -/
def Run : Journal → Journal → Prop :=
  Relation.ReflTransGen Step

def Reachable (journal : Journal) : Prop :=
  Run initial journal

end Journal

/-- What an entry may look like that was made of an origin: a value stays as it is, a payload stays until it
is replaced by the value of its node. -/
inductive Origin.Holds (contents : Contents) (key : Key) : Origin → Entry → Prop where
  | value (value : Value) : Holds contents key (.value value) (.complete ⟨key.type, value⟩)
  | deferred (payload : Payload) (gate : Gate) (queue : List Waiter) :
    Holds contents key (.deferred payload) ⟨none, some payload, gate, queue⟩
  | evaluated {node : Node} {value : Value} (evaluates : contents.evaluate node = some value) :
    Holds contents key (.deferred (.node key.type node)) (.complete ⟨key.type, value⟩)

/-- What has become of a publication, what it has put into the registry, and what its caller got. -/
inductive Publication.Stands (journal : Journal) (index : Nat) : Publication → Prop where
  | begun {id : Nat} {key : Key} (nothing : journal.made index = []) : Stands journal index ⟨id, key, none⟩
  | failed {id : Nat} {key : Key} {error : ResolveError}
      (returned : journal.system.phase? id = some (.returned (.error error)))
      (nothing : journal.made index = []) : Stands journal index ⟨id, key, some (.error error)⟩
  | refused {id : Nat} {key : Key} {value : Value}
      (returned : journal.system.phase? id = some (.returned (.ok value)))
      (only : journal.made index =
        [⟨key, .value value, some index, .error (.about .alreadyRegistered key)⟩]) :
      Stands journal index ⟨id, key, some (.error (.registry (.about .alreadyRegistered key) .root))⟩
  | published {id : Nat} {key : Key} {value : Value}
      (returned : journal.system.phase? id = some (.returned (.ok value)))
      (only : journal.made index = [⟨key, .value value, some index, .ok ()⟩]) :
      Stands journal index ⟨id, key, some (.ok value)⟩

namespace System

variable {before after system : System} {action : Action} {key : Key}

theorem contains_iff (orderly : system.Orderly) :
    system.world.registry.contains key ↔ key ∈ system.registered.map (·.1) := by
  rw [← orderly.ledger.keys, Registry.contains, Registry.entry?, Option.isSome_iff_ne_none, ne_eq,
    OrderedMap.get?_eq_none_iff, not_not]

/-- Under a key that is taken nothing changes. -/
theorem act?_register_taken (taken : system.world.registry.contains key) (origin : Origin) :
    (system.world.register key (origin.entry key)).1 = .error (.about .alreadyRegistered key) ∧
      system.act? (.register key origin) = some { system with world := system.world.emit (.rejected key) } := by
  have refused : system.world.registry.register key (origin.entry key) =
      .error (.about .alreadyRegistered key) := if_pos taken
  constructor
  · simp only [World.register, refused]
  · simp only [act?, World.register, refused]

/-- Under a key that is free the entry is put at the end. -/
theorem act?_register_free (free : ¬ system.world.registry.contains key) (origin : Origin) :
    (system.world.register key (origin.entry key)).1 = .ok () ∧
      system.act? (.register key origin) = some { system with
        world := (system.world.register key (origin.entry key)).2
        registered := system.registered ++ [(key, origin)] } := by
  have accepted : system.world.registry.register key (origin.entry key) =
      .ok { system.world.registry with entries := system.world.registry.entries ++ [(key, origin.entry key)] } :=
    if_neg free
  constructor
  · simp only [World.register, accepted]
  · simp only [act?, World.register, accepted]

/-- An operation that has returned stays as it is. -/
theorem act?_returned (result : before.act? action = some after) {id : Nat} {value : Except ResolveError Value}
    (returned : before.phase? id = some (.returned value)) : after.phase? id = some (.returned value) := by
  cases act?_acts result with
  | registered | rejected | advance => exact returned
  | start =>
    obtain ⟨process, present, same⟩ := Option.map_eq_some_iff.mp returned
    have inside : id < before.processes.length := (List.getElem?_eq_some_iff.mp present).1
    rw [phase?, List.getElem?_append_left inside, present, Option.map_some, same]
  | @becomes _ other process phase later changes =>
    have different : other ≠ id := by
      rintro rfl
      have same := changes.present
      rw [phase?, same] at returned
      cases changes <;> cases returned
    simpa [phase?, become, List.getElem?_modify, different] using returned

end System

theorem Insertion.Ordered.append {insertions : List Insertion} (ordered : Ordered insertions) (last : Insertion)
    (judged : last.result = verdict insertions last.key) : Ordered (insertions ++ [last]) := by
  intro index insertion present
  rcases Nat.lt_or_ge index insertions.length with inside | beyond
  · rw [List.getElem?_append_left inside] at present
    rw [List.take_append_of_le_length (Nat.le_of_lt inside)]
    exact ordered index insertion present
  · have position : index = insertions.length := by
      have bound := (List.getElem?_eq_some_iff.mp present).1
      rw [List.length_append, List.length_singleton] at bound
      omega
    subst position
    rw [List.getElem?_concat_length] at present
    cases present
    rw [List.take_left]
    exact judged

namespace Journal

variable {before after journal : Journal} {deed : Deed}

/-- What holds at first and is kept by every deed holds in every state that can be reached. -/
theorem Reachable.invariant {holds : Journal → Prop} (first : holds initial)
    (kept : ∀ before deed after, holds before → before.do? deed = some after → holds after)
    (reachable : journal.Reachable) : holds journal := by
  induction reachable with
  | refl => exact first
  | tail _ step ih =>
    obtain ⟨deed, result⟩ := step
    exact kept _ deed _ ih result

/-- All that a deed can do. -/
inductive Does (journal : Journal) : Deed → Journal → Prop where
  | inserts {key : Key} {origin : Origin} {after : Journal}
      (inserted : journal.insert? none key origin = some after) : Does journal (.insert key origin) after
  | begins {config : Config} {node : Node} {key : Key} {system : System}
      (begun : journal.system.act? (.start (.resolve config node)) = some system) :
      Does journal (.publish config node key)
        { journal with
          system
          publications := journal.publications ++ [⟨journal.system.processes.length, key, none⟩] }
  | fails {index id : Nat} {key : Key} {error : ResolveError}
      (present : journal.publications[index]? = some ⟨id, key, none⟩)
      (returned : journal.system.phase? id = some (.returned (.error error))) :
      Does journal (.conclude index) (journal.answer index (.error error))
  | publishes {index id : Nat} {key : Key} {value : Value} {next : Journal}
      (present : journal.publications[index]? = some ⟨id, key, none⟩)
      (returned : journal.system.phase? id = some (.returned (.ok value)))
      (inserted : journal.insert? (some index) key (.value value) = some next) :
      Does journal (.conclude index) (next.answer index (journal.system.world.publish key (.ok value)).1)
  | works {action : Action} {system : System} (quiet : System.Quiet action)
      (done : journal.system.act? action = some system) : Does journal (.work action) { journal with system }

theorem do?_does (result : before.do? deed = some after) : before.Does deed after := by
  unfold do? at result
  split at result
  next => exact .inserts result
  next =>
    obtain ⟨system, begun, rfl⟩ := Option.map_eq_some_iff.mp result
    exact .begins begun
  next =>
    split at result
    next present =>
      split at result
      next outcome returned =>
        cases outcome with
        | error error =>
          cases result
          exact .fails present returned
        | ok value =>
          obtain ⟨next, inserted, rfl⟩ := Option.map_eq_some_iff.mp result
          exact .publishes present returned inserted
      next => cases result
    next => cases result
  next => cases result
  next action other =>
    obtain ⟨system, done, rfl⟩ := Option.map_eq_some_iff.mp result
    have quiet : System.Quiet action := by
      cases action with
      | register key origin => exact other key origin rfl
      | _ => trivial
    exact .works quiet done

/-- The book of attempts agrees with what is registered. -/
structure Booked (journal : Journal) : Prop where
  reachable : journal.system.Reachable
  ordered : Insertion.Ordered journal.insertions
  registered : journal.system.registered = journal.accepted.map fun insertion => (insertion.key, insertion.origin)
  listed : ∀ insertion ∈ journal.insertions, insertion.key ∈ journal.system.registered.map (·.1)
  known : ∀ insertion ∈ journal.insertions, ∀ index, insertion.publication = some index →
    index < journal.publications.length

/-- The book agrees also with what has become of publications. -/
structure Sound (journal : Journal) : Prop extends Booked journal where
  stands : ∀ index (publication : Publication), journal.publications[index]? = some publication →
    publication.Stands journal index

/-- The keys in the book are those that are registered. -/
theorem Booked.mem_keys (booked : journal.Booked) {key : Key} :
    key ∈ journal.insertions.map Insertion.key ↔ key ∈ journal.system.registered.map (·.1) := by
  constructor
  · intro listed
    obtain ⟨insertion, member, rfl⟩ := List.mem_map.mp listed
    exact booked.listed insertion member
  · intro listed
    rw [booked.registered, List.map_map] at listed
    obtain ⟨insertion, member, rfl⟩ := List.mem_map.mp listed
    exact List.mem_map_of_mem (List.mem_of_mem_filter member)

theorem Booked.contains_iff (booked : journal.Booked) {key : Key} :
    journal.system.world.registry.contains key ↔ key ∈ journal.insertions.map Insertion.key := by
  rw [System.contains_iff booked.reachable.orderly, booked.mem_keys]

/-- What an attempt to put something under a key does. -/
structure Inserts (journal : Journal) (publication : Option Nat) (key : Key) (origin : Origin) (after : Journal) :
    Prop where
  booked : after.Booked
  publications : after.publications = journal.publications
  phases : ∀ id, after.system.phase? id = journal.system.phase? id
  insertions : after.insertions = journal.insertions ++
    [⟨key, origin, publication, Insertion.verdict journal.insertions key⟩]
  told : (journal.system.world.register key (origin.entry key)).1 = Insertion.verdict journal.insertions key
  untouched : Insertion.verdict journal.insertions key ≠ .ok () →
    after.system.world.registry = journal.system.world.registry

theorem Booked.insert (booked : journal.Booked) {publication : Option Nat} {key : Key} {origin : Origin}
    (known : ∀ index, publication = some index → index < journal.publications.length)
    (result : journal.insert? publication key origin = some after) :
    journal.Inserts publication key origin after := by
  obtain ⟨system, done, rfl⟩ := Option.map_eq_some_iff.mp result
  have reachable : system.Reachable := booked.reachable.tail ⟨_, trivial, done⟩
  have knows : ∀ insertion ∈ journal.insertions ++
      [⟨key, origin, publication, Insertion.verdict journal.insertions key⟩],
      ∀ index, insertion.publication = some index → index < journal.publications.length := by
    intro insertion member
    rcases List.mem_append.mp member with old | new
    · exact booked.known insertion old
    · rw [List.mem_singleton.mp new]
      exact known
  have ordered := booked.ordered.append
    ⟨key, origin, publication, Insertion.verdict journal.insertions key⟩ rfl
  by_cases taken : journal.system.world.registry.contains key
  · have listed := booked.contains_iff.mp taken
    have verdict : Insertion.verdict journal.insertions key = .error (.about .alreadyRegistered key) :=
      if_pos listed
    obtain ⟨told, effect⟩ := System.act?_register_taken taken origin
    rw [effect] at done
    cases done
    rw [told, ← verdict]
    refine ⟨⟨reachable, ordered, ?_, ?_, knows⟩, rfl, fun _ => rfl, rfl, told.trans verdict.symm, fun _ => rfl⟩
    · simpa [accepted, List.filter_append, verdict, Except.toBool] using booked.registered
    · intro insertion member
      rcases List.mem_append.mp member with old | new
      · exact booked.listed insertion old
      · rw [List.mem_singleton.mp new]
        exact booked.mem_keys.mp listed
  · have verdict : Insertion.verdict journal.insertions key = .ok () :=
      if_neg fun listed => taken (booked.contains_iff.mpr listed)
    obtain ⟨told, effect⟩ := System.act?_register_free taken origin
    rw [effect] at done
    cases done
    rw [told, ← verdict]
    refine ⟨⟨reachable, ordered, ?_, ?_, knows⟩, rfl, fun _ => rfl, rfl, told.trans verdict.symm,
      fun refused => absurd verdict refused⟩
    · have earlier := booked.registered
      simp_all [accepted, List.filter_append, Except.toBool]
    · intro insertion member
      rw [List.map_append, List.mem_append]
      rcases List.mem_append.mp member with old | new
      · exact .inl (booked.listed insertion old)
      · rw [List.mem_singleton.mp new]
        exact .inr List.mem_cons_self

theorem made_append {insertion : Insertion} (added : after.insertions = before.insertions ++ [insertion])
    {index : Nat} (other : insertion.publication ≠ some index) : after.made index = before.made index := by
  simp [made, added, other]

end Journal

theorem Publication.Stands.mono {before after : Journal} {index : Nat} {publication : Publication}
    (stands : publication.Stands before index)
    (phases : ∀ id value, before.system.phase? id = some (.returned value) →
      after.system.phase? id = some (.returned value))
    (same : after.made index = before.made index) : publication.Stands after index := by
  cases stands with
  | begun nothing => exact .begun (same.trans nothing)
  | failed returned nothing => exact .failed (phases _ _ returned) (same.trans nothing)
  | refused returned only => exact .refused (phases _ _ returned) (same.trans only)
  | published returned only => exact .published (phases _ _ returned) (same.trans only)

namespace Journal

variable {before after journal : Journal} {deed : Deed}

/-- Where nothing is registered the book need not change. -/
theorem Booked.work (booked : journal.Booked) {action : Action} {system : System}
    (quiet : System.Quiet action) (result : journal.system.act? action = some system) {publications : List Publication}
    (grown : journal.publications.length ≤ publications.length) :
    Booked ⟨system, journal.insertions, publications⟩ := by
  have same : system.registered = journal.system.registered := System.act?_registered quiet result
  exact ⟨booked.reachable.tail ⟨action, trivial, result⟩, booked.ordered, same.trans booked.registered,
    fun insertion member => same ▸ booked.listed insertion member,
    fun insertion member index own => Nat.lt_of_lt_of_le (booked.known insertion member index own) grown⟩

theorem Booked.made_eq_nil (booked : journal.Booked) {index : Nat} (beyond : journal.publications.length ≤ index) :
    journal.made index = [] := by
  refine List.filter_eq_nil_iff.mpr fun insertion member own => ?_
  have inside := booked.known insertion member index (of_decide_eq_true own)
  omega

theorem Sound.insert (sound : journal.Sound) {key : Key} {origin : Origin}
    (result : journal.insert? none key origin = some after) : after.Sound := by
  have inserts := sound.toBooked.insert (by simp) result
  refine ⟨inserts.booked, fun index publication present => ?_⟩
  rw [inserts.publications] at present
  exact (sound.stands index publication present).mono (fun id _ returned => (inserts.phases id).trans returned)
    (made_append inserts.insertions (by simp))

theorem Sound.publish (sound : journal.Sound) {config : Config} {node : Node} {key : Key} {system : System}
    (result : journal.system.act? (.start (.resolve config node)) = some system) :
    Sound { journal with
      system
      publications := journal.publications ++ [⟨journal.system.processes.length, key, none⟩] } := by
  have quiet : System.Quiet (.start (.resolve config node)) := trivial
  refine ⟨sound.work quiet result (by simp), fun index publication present => ?_⟩
  have phases : ∀ id value, journal.system.phase? id = some (.returned value) →
      system.phase? id = some (.returned value) := fun _ _ => System.act?_returned result
  rcases Nat.lt_or_ge index journal.publications.length with inside | beyond
  · rw [List.getElem?_append_left inside] at present
    exact (sound.stands index publication present).mono phases rfl
  · have nothing := sound.made_eq_nil beyond
    rw [List.getElem?_append_right beyond] at present
    obtain ⟨_, rfl⟩ := List.mem_singleton.mp (List.mem_of_getElem? present)
    exact .begun nothing

theorem Sound.made_eq_nil_of_open (sound : journal.Sound) {index id : Nat} {key : Key}
    (present : journal.publications[index]? = some ⟨id, key, none⟩) : journal.made index = [] := by
  cases sound.stands index _ present with
  | begun nothing => exact nothing

/-- An answer to one publication leaves the others as they are. -/
theorem Sound.answer {index id : Nat} {key : Key} {outcome : Except ResolveError Value} (booked : journal.Booked)
    (present : journal.publications[index]? = some ⟨id, key, none⟩)
    (others : ∀ other, other ≠ index → ∀ publication : Publication, journal.publications[other]? = some publication →
      publication.Stands journal other)
    (own : Publication.Stands journal index ⟨id, key, some outcome⟩) : (journal.answer index outcome).Sound := by
  refine ⟨⟨booked.reachable, booked.ordered, booked.registered, booked.listed, ?_⟩, ?_⟩
  · simpa [Journal.answer] using booked.known
  · intro other publication found
    by_cases same : index = other
    · subst same
      simp only [Journal.answer, List.getElem?_modify_eq, present, Option.map_eq_map, Option.map_some] at found
      cases found
      exact own.mono (fun _ _ returned => returned) rfl
    · rw [Journal.answer, List.getElem?_modify_ne _ _ same] at found
      exact (others other (Ne.symm same) publication found).mono (fun _ _ returned => returned) rfl

theorem Sound.conclude (sound : journal.Sound) {index id : Nat} {key : Key} {value : Value} {next : Journal}
    (present : journal.publications[index]? = some ⟨id, key, none⟩)
    (returned : journal.system.phase? id = some (.returned (.ok value)))
    (inserted : journal.insert? (some index) key (.value value) = some next) :
    (next.answer index (journal.system.world.publish key (.ok value)).1).Sound := by
  have inside : index < journal.publications.length := (List.getElem?_eq_some_iff.mp present).1
  have inserts := sound.toBooked.insert (fun _ own => Option.some.inj own ▸ inside) inserted
  have made : next.made index = [⟨key, .value value, some index, Insertion.verdict journal.insertions key⟩] := by
    have nothing : journal.insertions.filter (fun insertion => insertion.publication = some index) = [] :=
      sound.made_eq_nil_of_open present
    simp [Journal.made, inserts.insertions, nothing]
  have stays : next.system.phase? id = some (.returned (.ok value)) := (inserts.phases id).trans returned
  have outcome : (journal.system.world.publish key (.ok value)).1 =
      ((Insertion.verdict journal.insertions key).map fun _ => value).mapError (.ofRegistry · .root) := by
    rw [World.publish_ok, ← inserts.told]
    rfl
  refine .answer inserts.booked (inserts.publications ▸ present) (fun other different publication found => ?_) ?_
  · rw [inserts.publications] at found
    exact (sound.stands other publication found).mono (fun id _ returned => (inserts.phases id).trans returned)
      (made_append inserts.insertions (by simpa using different.symm))
  · rw [outcome]
    unfold Insertion.verdict at made ⊢
    split at made
    next taken =>
      rw [if_pos taken]
      exact .refused stays made
    next free =>
      rw [if_neg free]
      exact .published stays made

theorem initial_sound : initial.Sound where
  reachable := .refl
  ordered := fun _ _ present => by cases present
  registered := rfl
  listed := fun _ member => by cases member
  known := fun _ member => by cases member
  stands := fun _ _ present => by cases present

theorem Does.sound (does : before.Does deed after) (sound : before.Sound) : after.Sound := by
  cases does with
  | inserts inserted => exact sound.insert inserted
  | begins begun => exact sound.publish begun
  | fails present returned =>
    exact .answer sound.toBooked present (fun other _ => sound.stands other)
      (.failed returned (sound.made_eq_nil_of_open present))
  | publishes present returned inserted => exact sound.conclude present returned inserted
  | works quiet done =>
    exact ⟨sound.work quiet done (Nat.le_refl _), fun index publication present =>
      (sound.stands index publication present).mono (fun _ _ => System.act?_returned done) rfl⟩

theorem Reachable.sound (reachable : journal.Reachable) : journal.Sound :=
  reachable.invariant initial_sound fun _ _ _ sound result => (do?_does result).sound sound

theorem insert?_act? {publication : Option Nat} {key : Key} {origin : Origin}
    (inserted : before.insert? publication key origin = some after) :
    before.system.act? (.register key origin) = some after.system ∧
      ∃ result, after.insertions = before.insertions ++ [⟨key, origin, publication, result⟩] := by
  obtain ⟨system, done, rfl⟩ := Option.map_eq_some_iff.mp inserted
  exact ⟨done, _, rfl⟩

/-- A deed is at most one action of the operations and the registry. -/
theorem Does.system (does : before.Does deed after) :
    System.Run (fun _ => True) before.system after.system := by
  cases does with
  | inserts inserted => exact .single ⟨_, trivial, (insert?_act? inserted).1⟩
  | begins begun => exact .single ⟨_, trivial, begun⟩
  | fails => exact .refl
  | publishes _ _ inserted => exact .single ⟨_, trivial, (insert?_act? inserted).1⟩
  | works _ done => exact .single ⟨_, trivial, done⟩

/-- The book only grows. -/
theorem Does.insertions (does : before.Does deed after) : before.insertions <+: after.insertions := by
  cases does with
  | inserts inserted | publishes _ _ inserted =>
    obtain ⟨_, result, added⟩ := insert?_act? inserted
    exact ⟨_, added.symm⟩
  | begins | fails | works => exact List.prefix_rfl

theorem Run.system (run : Run before after) : System.Run (fun _ => True) before.system after.system := by
  induction run with
  | refl => exact .refl
  | tail _ step ih =>
    obtain ⟨deed, result⟩ := step
    exact ih.trans (do?_does result).system

theorem Run.insertions (run : Run before after) : before.insertions <+: after.insertions := by
  induction run with
  | refl => exact List.prefix_rfl
  | tail _ step ih =>
    obtain ⟨deed, result⟩ := step
    exact ih.trans (do?_does result).insertions

/-- Whoever does not get anything accepted leaves the registry as it is. -/
theorem Does.registry (does : before.Does deed after) (booked : before.Booked)
    (registers : ∀ action, deed ≠ .work action) (refused : after.accepted = before.accepted) :
    after.system.world.registry = before.system.world.registry := by
  have untouched : ∀ publication key origin next, before.insert? publication key origin = some next →
      (∀ index, publication = some index → index < before.publications.length) →
      next.accepted = before.accepted → next.system.world.registry = before.system.world.registry := by
    intro publication key origin next inserted known none
    have inserts := booked.insert known inserted
    refine inserts.untouched fun accepted => ?_
    have longer := congrArg List.length none
    simp [Journal.accepted, inserts.insertions, accepted, Except.toBool] at longer
  cases does with
  | inserts inserted => exact untouched _ _ _ _ inserted (by simp) refused
  | begins begun =>
    cases System.act?_acts begun with
    | start => rfl
    | becomes changes => cases changes
  | fails => rfl
  | @publishes _ _ _ _ next present _ inserted =>
    have inside := (List.getElem?_eq_some_iff.mp present).1
    exact untouched _ _ _ next inserted (fun _ own => Option.some.inj own ▸ inside) refused
  | works => exact absurd rfl (registers _)

/-- What was accepted is in the registry, as it was put there or as it was made of that. -/
theorem Booked.entry_of_accepted (booked : journal.Booked) {insertion : Insertion}
    (member : insertion ∈ journal.accepted) :
    ∃ entry, journal.system.world.registry.entry? insertion.key = some entry ∧
      insertion.origin.Holds journal.system.registered insertion.key entry := by
  obtain ⟨key, origin, publication, result⟩ := insertion
  have ledger := booked.reachable.orderly.ledger
  have registered : journal.system.registered.origin? key = some origin := by
    apply OrderedMap.get?_of_mem ledger.distinct
    rw [booked.registered]
    exact List.mem_map_of_mem (f := fun insertion => (insertion.key, insertion.origin)) member
  have present : key ∈ journal.system.registered.map (·.1) :=
    List.mem_map_of_mem (f := Prod.fst) (OrderedMap.mem_of_get? registered)
  rw [← System.contains_iff booked.reachable.orderly] at present
  obtain ⟨entry, found⟩ := Option.isSome_iff_exists.mp present
  refine ⟨entry, found, ?_⟩
  cases ledger.fits key entry found with
  | @deferred payload gate queue _ same =>
    cases registered.symm.trans same
    exact .deferred payload gate queue
  | @complete value _ known =>
    cases origin with
    | value stored =>
      cases (Contents.valueOf_of_value registered).symm.trans known
      exact .value value
    | deferred payload =>
      rcases Contents.valueOf_cases known with same | ⟨node, usable, _, _⟩
      · cases registered.symm.trans same
      · have evaluates : journal.system.registered.evaluate node = some value := by
          rw [← Contents.valueOf_node usable, known]
        cases registered.symm.trans (Contents.node?_eq_some_iff.mp usable)
        exact .evaluated evaluates

/-- Each accepted attempt has an entry of its own, and there are no other entries. -/
theorem Booked.keys (booked : journal.Booked) :
    journal.system.world.registry.entries.map (·.1) = journal.accepted.map Insertion.key := by
  rw [booked.reachable.orderly.ledger.keys, booked.registered, List.map_map]
  rfl

theorem Publication.Stands.get? {index : Nat} {publication : Publication} {value : Value} (booked : journal.Booked)
    (stands : publication.Stands journal index) (succeeded : publication.outcome = some (.ok value)) :
    journal.system.world.registry.get? publication.key.type publication.key = some value := by
  cases stands with
  | begun | failed | refused => cases succeeded
  | @published id key own returned only =>
    cases succeeded
    have member : (⟨key, .value value, some index, .ok ()⟩ : Insertion) ∈ journal.accepted := by
      have inside := List.mem_cons_self (a := (⟨key, .value value, some index, .ok ()⟩ : Insertion)) (l := [])
      rw [← only] at inside
      exact List.mem_filter.mpr ⟨List.mem_of_mem_filter inside, rfl⟩
    obtain ⟨entry, found, holds⟩ := booked.entry_of_accepted member
    cases holds
    simp [Registry.get?, found, Entry.complete, Registry.asType, Except.toOption]

/-- The first registration wins, whatever is registered, published and resolved in whatever order. On every run:
the book of attempts only grows, and each attempt was accepted if its key was new in the book and told that the
key is taken otherwise;
every accepted attempt still has the entry that was made of it, and what is complete stays complete;
whoever has nothing accepted leaves the registry as it is;
there are as many entries as accepted attempts, and these have different keys;
a publication has made no attempt before its resolution returned or if that failed, and at most one afterwards, with
the value that the resolution returned; its caller got that value if the attempt was accepted, and the value is
what is found under the key. -/
theorem Reachable.first_registration_wins (reachable : before.Reachable) (run : Run before after) :
    before.insertions <+: after.insertions ∧
      (∀ index insertion, after.insertions[index]? = some insertion →
        insertion.result = if insertion.key ∈ (after.insertions.take index).map Insertion.key
          then .error (.about .alreadyRegistered insertion.key) else .ok ()) ∧
      (∀ insertion ∈ after.accepted, ∃ entry, after.system.world.registry.entry? insertion.key = some entry ∧
        insertion.origin.Holds after.system.registered insertion.key entry) ∧
      (∀ key value, before.system.world.registry.get? key.type key = some value →
        after.system.world.registry.get? key.type key = some value) ∧
      (∀ deed next, after.do? deed = some next → (∀ action, deed ≠ .work action) → next.accepted = after.accepted →
        next.system.world.registry = after.system.world.registry) ∧
      (after.system.world.registry.size = after.accepted.length ∧ (after.accepted.map Insertion.key).Nodup) ∧
      ∀ index (publication : Publication), after.publications[index]? = some publication →
        publication.Stands after index ∧ ∀ value, publication.outcome = some (.ok value) →
          after.system.world.registry.get? publication.key.type publication.key = some value := by
  have sound : after.Sound := Reachable.sound (Relation.ReflTransGen.trans reachable run)
  have orderly := sound.reachable.orderly
  refine ⟨run.insertions, sound.ordered, fun insertion => sound.entry_of_accepted,
    (System.Run.goes run.system reachable.sound.reachable).stored,
    fun deed next result => (do?_does result).registry sound.toBooked,
    ⟨?_, ?_⟩, fun index publication present => ?_⟩
  · calc after.system.world.registry.size
        = (after.system.world.registry.entries.map (·.1)).length := List.length_map _ |>.symm
      _ = after.accepted.length := by rw [sound.keys, List.length_map]
  · rw [← sound.keys, orderly.ledger.keys]
    exact orderly.ledger.distinct
  · have stands := sound.stands index publication present
    exact ⟨stands, fun value => Publication.Stands.get? sound.toBooked stands⟩

/-- The state after some deeds, one after another, if all of them are possible. -/
def perform (journal : Journal) : List Deed → Option Journal
  | [] => some journal
  | deed :: rest => (journal.do? deed).bind fun next => next.perform rest

/-- The state that some deeds lead to from the beginning. -/
def following (deeds : List Deed) : Journal :=
  (initial.perform deeds).getD initial

theorem run_of_perform (deeds : List Deed) (result : before.perform deeds = some after) : Run before after := by
  induction deeds generalizing before with
  | nil =>
    cases result
    exact .refl
  | cons deed rest ih =>
    obtain ⟨next, first, later⟩ := Option.bind_eq_some_iff.mp result
    exact (Relation.ReflTransGen.single ⟨deed, first⟩).trans (ih later)

/-- Two resolutions are to be published. While they run, one of the keys is taken, and its name is registered for
another type as well. -/
def contested : List Deed :=
  [.publish .default (.literal (.text "late")) ⟨EntityType.text.typeName, "motto"⟩,
    .publish .default (.literal (.text "onward")) ⟨EntityType.text.typeName, "slogan"⟩,
    .work (.step 0), .insert ⟨EntityType.text.typeName, "motto"⟩ (.value (.text "early")),
    .insert ⟨EntityType.number.typeName, "motto"⟩ (.value (.number 7)), .work (.step 0), .conclude 0,
    .work (.step 1), .work (.step 1), .conclude 1]

theorem first_registration_wins_contested : (following contested).Reachable ∧
    (following contested).publications.map Publication.outcome =
      [some (.error (.registry (.alreadyRegistered "String" "motto") .root)), some (.ok (.text "onward"))] ∧
    (following contested).system.world.registry.size = 3 ∧
    ((following contested).accepted.map Insertion.key).Nodup ∧
    (following contested).system.world.registry.get? EntityType.text.typeName
      ⟨EntityType.text.typeName, "slogan"⟩ = some (.text "onward") := by
  have reachable : (following contested).Reachable := run_of_perform contested rfl
  obtain ⟨_, _, _, _, _, ⟨count, distinct⟩, publications⟩ := reachable.first_registration_wins .refl
  refine ⟨reachable, rfl, count.trans rfl, distinct, ?_⟩
  exact (publications 1 _ rfl).2 (.text "onward") rfl

end Journal

end Blueprint
