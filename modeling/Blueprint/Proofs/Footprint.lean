import Blueprint.Proofs.Guards
import Blueprint.Proofs.Machine.Serving
/-! What a resolution touches that runs alone. It begins the initialization of a deferred entry at most once and
only where its references come to the entry; a value completes all entries that they come to, and whatever else
ends it leaves every entry complete or as it was. -/

namespace Blueprint

/-- What an entry holds. One with neither value nor payload holds no more than a text that nothing resolves. -/
def Entry.origin (entry : Entry) : Origin :=
  match entry.value with
  | some stored => .value stored.value
  | none => .deferred (entry.payload.getD (.text ""))

namespace Registry

/-- What a registry holds now: values where entries are complete, payloads elsewhere. -/
def contents (registry : Registry) : Contents :=
  registry.entries.map fun item => (item.1, item.2.origin)

/-- Following some references comes to a deferred entry that is not complete, through such entries only. -/
def Needs (registry : Registry) (references : List Key) (key : Key) : Prop :=
  registry.contents.Reaches references key ∧ ∃ payload, registry.entry? key = some (.deferred payload)

theorem origin?_contents (registry : Registry) (key : Key) :
    registry.contents.origin? key = (registry.entry? key).map Entry.origin :=
  OrderedMap.get?_map _ _ _

end Registry

/-- What concerns one operation that has begun, and time. -/
def Action.Concerns (id : Nat) : Action → Prop
  | look other | step other | drop other => other = id
  | advance _ => True
  | register _ _ | start _ => False

/-- An operation that neither fails nor was given up. -/
def Phase.Thrives : Phase → Prop
  | resting _ | returned (.ok _) => True
  | looking _ machine => ∀ error, machine.control ≠ .finish (.error error)
  | returned (.error _) | dropped => False

/-- How far an operation has come that began the initialization of some entries: each of them is being
initialized or complete, and whatever it or they refer to is wanted until it is complete. -/
structure Progress (contents : Contents) (roots : List Key) (stakes : Stakes) (world : World) (keys : List Key) :
    Prop where
  settled : ∀ key ∈ keys, stakes.Turns key ∨ (world.registry.get? key.type key).isSome
  turns : ∀ key, stakes.Turns key → key ∈ keys
  roots : ∀ key ∈ roots, stakes.Wants none key ∨ (world.registry.get? key.type key).isSome
  follows : ∀ key ∈ keys, ∀ node, contents.node? key = some node → ∀ reference ∈ node.references,
    stakes.Wants (some key) reference ∨ (world.registry.get? reference.type reference).isSome

/-- One operation alone in a world, since a time at which nobody was at work. -/
structure Process.Sole (contents : Contents) (first : World) (process : Process) (world : World) (keys : List Key) :
    Prop where
  orderly : process.Orderly contents
  ledger : Ledger contents world.registry world.fresh process.holds
  begun : world.begun = first.begun ++ keys
  counted : world.registry.initializations = first.registry.initializations + keys.length
  distinct : keys.Nodup
  reached : ∀ key ∈ keys, contents.Reaches process.call.references key ∧
    ∃ payload, contents.origin? key = some (.deferred payload)
  completed : ∀ key : Key, (world.registry.get? key.type key).isSome →
    (first.registry.get? key.type key).isSome ∨ key ∈ keys
  progress : process.phase.Thrives →
    Progress contents process.call.references (process.phase.task.stakes none) world keys

namespace Progress

variable {contents : Contents} {roots keys more : List Key} {stakes after : Stakes} {world later : World}

theorem of_same (progress : Progress contents roots stakes world keys)
    (stored : ∀ key : Key, (world.registry.get? key.type key).isSome → (later.registry.get? key.type key).isSome) :
    Progress contents roots stakes later keys where
  settled key member := (progress.settled key member).imp_right (stored key)
  turns := progress.turns
  roots key member := (progress.roots key member).imp_right (stored key)
  follows key member node found reference listed :=
    (progress.follows key member node found reference listed).imp_right (stored reference)

theorem continues (progress : Progress contents roots stakes world keys)
    (stored : ∀ key : Key, (world.registry.get? key.type key).isSome → (later.registry.get? key.type key).isSome)
    (continues : Machine.Continues contents stakes after later more) :
    Progress contents roots after later (keys ++ more) := by
  have moved := progress.of_same stored
  have served : ∀ owner key, stakes.Wants owner key ∨ (later.registry.get? key.type key).isSome →
      after.Wants owner key ∨ (later.registry.get? key.type key).isSome := by
    rintro owner key (wanted | complete)
    · exact continues.wants owner key wanted
    · exact .inr complete
  constructor
  · intro key member
    rcases List.mem_append.mp member with old | new
    · rcases moved.settled key old with turns | complete
      · exact continues.keeps key turns
      · exact .inr complete
    · exact .inl (continues.begins key new)
  · intro key turns
    rw [List.mem_append]
    exact (continues.turns key turns).imp_left (progress.turns key)
  · exact fun key member => served none key (moved.roots key member)
  · intro key member node found reference listed
    rcases List.mem_append.mp member with old | new
    · exact served (some key) reference (moved.follows key old node found reference listed)
    · exact .inl (continues.follows key new node found reference listed)

/-- With nothing at stake any more everything that was to be followed is complete. -/
theorem complete (progress : Progress contents roots 0 world keys) {key : Key}
    (opened : ∀ key node, contents.node? key = some node → (world.registry.get? key.type key).isSome → key ∈ keys)
    (reached : contents.Reaches roots key) : (world.registry.get? key.type key).isSome := by
  have nothing : ∀ owner key, ¬ Stakes.Wants 0 owner key := by
    rintro owner key ⟨stake, member, _⟩
    exact absurd member (Multiset.notMem_zero _)
  obtain ⟨root, listed, way⟩ := reached
  induction way with
  | refl => exact (progress.roots root listed).resolve_left (nothing _ _)
  | @tail between last _ refers ih =>
    obtain ⟨node, found, reference⟩ := refers
    have begun := opened between node found ih
    exact (progress.follows between begun node found last reference).resolve_left (nothing _ _)

end Progress

theorem World.Inert.stored {world later : World} (inert : world.Inert later) (key : Key)
    (complete : (world.registry.get? key.type key).isSome) : (later.registry.get? key.type key).isSome :=
  inert.values key ▸ complete

theorem World.Inert.close (operation : Operation) (result : Except ResolveError Value) (world : World) :
    world.Inert (operation.close result world).2 := by
  obtain ⟨later, same, calm⟩ := operation.close_spec result world
  rw [same]
  exact .of_calm calm

theorem World.Inert.cancelOperation (operation : Operation) (world : World) :
    world.Inert (operation.cancel world) := by
  unfold Operation.cancel
  split
  · exact (World.Inert.cancel _ _).trans (.of_calm (.dropTimer _ _))
  · exact .cancel _ _

/-- A look that ends begins and completes nothing; an operation that thrives then has at stake what it had. -/
theorem Operation.conclude_inert {operation : Operation} {machine : Machine} {world : World}
    (idle : machine.step world = none) :
    world.Inert (operation.conclude machine world).2 ∧
      ((Phase.of (operation.conclude machine world).1).Thrives → (Phase.looking operation machine).Thrives ∧
        (Phase.of (operation.conclude machine world).1).task.stakes none = machine.whole.stakes none) := by
  cases Machine.step_idles idle with
  | @rest number task =>
    have rests : (Phase.looking operation ⟨number, .rest task, []⟩).Thrives := fun error same => by cases same
    simp only [conclude, watch]
    split
    · exact ⟨.of_calm (.refl _), fun _ => ⟨rests, rfl⟩⟩
    · split
      · exact ⟨(World.Inert.cancel task world).trans (.close _ _ _), fun alive => alive.elim⟩
      · split
        · exact ⟨.of_calm (.refl _), fun _ => ⟨rests, rfl⟩⟩
        · exact ⟨.of_calm (.setTimer _ _ _), fun _ => ⟨rests, rfl⟩⟩
  | @finish _ result =>
    refine ⟨World.Inert.close _ _ _, fun alive => ?_⟩
    cases result with
    | error error => exact alive.elim
    | ok value =>
      refine ⟨fun error same => (by cases same), ?_⟩
      change Task.stakes none .forever = _
      simp [Machine.whole, surround, Control.task, Node.references]

namespace Ledger

variable {contents : Contents} {registry : Registry} {fresh : Nat} {holds : Multiset Hold} {key : Key}

/-- What a reader finds is all that the entry holds. -/
theorem entry_of_get? (ledger : Ledger contents registry fresh holds) {value : Value}
    (found : registry.get? key.type key = some value) :
    registry.entry? key = some (.complete ⟨key.type, value⟩) := by
  cases present : registry.entry? key with
  | none => simp [Registry.get?, present] at found
  | some entry =>
    cases ledger.fits key entry present with
    | complete =>
      simp only [Registry.get?, present, Entry.complete, Registry.asType, Except.toOption] at found
      simpa [Entry.complete] using found
    | deferred => simp [Registry.get?, present] at found

/-- An entry on which there are no claims is complete or as it was registered. -/
theorem entry_of_unclaimed (ledger : Ledger contents registry fresh holds)
    (unclaimed : Hold.claims holds key = 0) {payload : Payload}
    (registered : contents.origin? key = some (.deferred payload)) :
    registry.entry? key = some (.deferred payload) ∨
      ∃ value, registry.get? key.type key = some value := by
  obtain ⟨entry, found⟩ := ledger.entry_of_placed registered
  have fits := ledger.fits key entry found
  rw [unclaimed] at fits
  generalize same : (0 : Multiset (Option Nat)) = claims at fits
  cases fits with
  | @complete value => 
    exact .inr ⟨value, by simp [Registry.get?, found, Entry.complete, Registry.asType, Except.toOption]⟩
  | @deferred own gate queue _ origin seated =>
    cases registered.symm.trans origin
    left
    cases seated with
    | idle => exact found
    | held queue => exact absurd same.symm Multiset.cons_ne_zero
    | granted ticket queue => exact absurd same.symm Multiset.cons_ne_zero

end Ledger

namespace Process.Sole

variable {contents : Contents} {first world later : World} {process : Process} {phase : Phase} {keys more : List Key}

/-- An operation that begins and completes nothing is as far as it was. -/
theorem inert (sole : process.Sole contents first world keys) (inert : world.Inert later)
    (orderly : Process.Orderly contents ⟨process.call, phase⟩)
    (ledger : Ledger contents later.registry later.fresh (Process.holds ⟨process.call, phase⟩))
    (same : phase.Thrives → process.phase.Thrives ∧ phase.task.stakes none = process.phase.task.stakes none) :
    Process.Sole contents first { process with phase } later keys where
  orderly
  ledger
  begun := inert.begun.trans sole.begun
  counted := inert.counted.trans sole.counted
  distinct := sole.distinct
  reached := sole.reached
  completed key complete := sole.completed key (inert.values key ▸ complete)
  progress thrives := by
    obtain ⟨before, stakes⟩ := same thrives
    dsimp only
    rw [stakes]
    exact (sole.progress before).of_same inert.stored

theorem serves {operation : Operation} {machine next : Machine}
    (sole : Process.Sole contents first ⟨process.call, .looking operation machine⟩ world keys)
    (alive : ∀ error, machine.control ≠ .finish (.error error))
    (orderly : Process.Orderly contents ⟨process.call, .looking operation next⟩)
    (ledger : Ledger contents later.registry later.fresh (Process.holds ⟨process.call, .looking operation next⟩))
    (goes : world.Goes later)
    (serves : Machine.Serves contents (machine.whole.stakes none) world (next, later) more) :
    Process.Sole contents first ⟨process.call, .looking operation next⟩ later (keys ++ more) := by
  have progress := sole.progress alive
  have stored : ∀ key : Key, (world.registry.get? key.type key).isSome →
      (later.registry.get? key.type key).isSome := by
    intro key complete
    obtain ⟨value, found⟩ := Option.isSome_iff_exists.mp complete
    exact Option.isSome_iff_exists.mpr ⟨value, goes.stored key value found⟩
  refine ⟨orderly, ledger, ?_, ?_, ?_, fun key member => ?_, fun key complete => ?_, fun thrives => ?_⟩
  · rw [serves.begun, sole.begun, List.append_assoc]
  · rw [serves.counted, sole.counted, List.length_append, Nat.add_assoc]
  · have once : more.Nodup := by
      match more, serves.single with
      | [], _ => exact List.nodup_nil
      | [key], _ => exact List.nodup_singleton key
    refine List.nodup_append.mpr ⟨sole.distinct, once, fun key old other new same => ?_⟩
    subst same
    -- what has begun is being initialized or complete, and such an entry is not begun
    obtain ⟨idle, open', _⟩ := serves.fresh key new
    rcases progress.settled key old with turns | complete
    · exact idle turns
    · rw [open'] at complete
      cases complete
  · rcases List.mem_append.mp member with old | new
    · exact sole.reached key old
    · obtain ⟨_, _, ⟨owner, stake, held, _, rfl⟩, registered⟩ := serves.fresh key new
      exact ⟨(sole.orderly.lawful stake held).reached, registered⟩
  · rw [List.mem_append]
    rcases serves.completes key complete with before | turns
    · exact (sole.completed key before).imp_right .inl
    · exact .inr (.inl (progress.turns key turns))
  · exact progress.continues stored (serves.continues thrives)

end Process.Sole

namespace System

variable {before after system : System} {action : Action}

theorem Changes.of_registered {id : Nat} {process : Process} {phase : Phase} {later : World}
    (changes : Changes system action id process phase later) (registered : Contents) :
    Changes { system with registered } action id process phase later := by
  cases changes with
  | look present => exact .look present
  | step present step => exact .step present step
  | conclude present idle => exact .conclude present idle
  | drop present => exact .drop present

theorem Changes.sole {id : Nat} {process : Process} {phase : Phase} {later : World} {contents : Contents}
    {first : World} {keys : List Key} (changes : Changes system action id process phase later)
    (sole : process.Sole contents first system.world keys) :
    ∃ more, Process.Sole contents first { process with phase } later (keys ++ more) := by
  have ledger := sole.ledger
  rw [← add_zero process.holds] at ledger
  have moves := (changes.of_registered contents).moves sole.orderly ledger
  have after := moves.ledger
  rw [add_zero] at after
  have stays : system.world.Inert later → (phase.Thrives → process.phase.Thrives ∧
      phase.task.stakes none = process.phase.task.stakes none) →
      ∃ more, Process.Sole contents first { process with phase } later (keys ++ more) := fun inert same =>
    ⟨[], by rw [List.append_nil]; exact sole.inert inert moves.orderly after same⟩
  cases changes with
  | look present => exact stays (.of_calm ⟨rfl, Nat.le_refl _, rfl⟩) fun _ => ⟨trivial, rfl⟩
  | @step _ call operation machine next _ present step =>
    by_cases failing : ∃ error, machine.control = .finish (.error error)
    · obtain ⟨error, same⟩ := failing
      have failed := (Machine.step_fails same step).1
      refine stays ?_ fun thrives => absurd failed (thrives error)
      change system.world.Inert (next, later).2
      generalize (next, later) = result at step ⊢
      cases Machine.step_steps step with
      | fail => exact .failIn _ _
      | poll | rest | finish => cases same
    · obtain ⟨more, serves⟩ := Machine.step_serves (account_of_orderly sole.orderly ledger) step
      exact ⟨more, sole.serves (fun error same => failing ⟨error, same⟩) moves.orderly after moves.goes serves⟩
  | conclude present idle =>
    obtain ⟨inert, same⟩ := Operation.conclude_inert idle
    exact stays inert same
  | @drop _ call operation present =>
    exact stays (.cancelOperation operation _) fun thrives => thrives.elim

theorem Orderly.ledger_of_idle (orderly : system.Orderly) (idle : system.Idle) :
    Ledger system.world.registry.contents system.world.registry system.world.fresh 0 := by
  have ledger := orderly.ledger
  rw [idle.holds] at ledger
  have keys : system.world.registry.contents.map (·.1) = system.world.registry.entries.map (·.1) := by
    rw [Registry.contents, List.map_map]
    rfl
  refine ⟨keys.symm, ?_, fun key entry found => ?_, fun hold member => absurd member (Multiset.notMem_zero _),
    fun hold member => absurd member (Multiset.notMem_zero _), ledger.records, ledger.tickets, ledger.issued⟩
  · rw [keys, ledger.keys]
    exact ledger.distinct
  · have origin : system.world.registry.contents.origin? key = some entry.origin := by
      rw [Registry.origin?_contents, found]
      rfl
    cases ledger.fits key entry found with
    | complete _ nobody => exact .complete (Contents.valueOf_of_value origin) nobody
    | deferred _ seated => exact .deferred origin seated

theorem Changes.concerned {id other : Nat} {process : Process} {phase : Phase} {later : World}
    (changes : Changes system action other process phase later) (concerns : action.Concerns id) : other = id := by
  cases changes <;> exact concerns

/-- A resolution stays alone while nothing happens but what concerns it. -/
theorem Run.sole {first started last : System} {call : Call} {contents : Contents} {id : Nat}
    (run : Run (Action.Concerns id) started last)
    (begun : ∃ phase, started.processes[id]? = some ⟨call, phase⟩ ∧
      Process.Sole contents first.world ⟨call, phase⟩ started.world []) :
    ∃ phase keys, last.processes[id]? = some ⟨call, phase⟩ ∧
      Process.Sole contents first.world ⟨call, phase⟩ last.world keys := by
  induction run with
  | refl =>
    obtain ⟨phase, present, sole⟩ := begun
    exact ⟨phase, [], present, sole⟩
  | @tail between last _ step ih =>
    obtain ⟨phase, keys, present, sole⟩ := ih
    obtain ⟨action, concerns, result⟩ := step
    cases act?_acts result with
    | registered | rejected | start => exact concerns.elim
    | @becomes _ other process next later changes =>
      obtain rfl := changes.concerned concerns
      cases present.symm.trans changes.present
      obtain ⟨more, moved⟩ := changes.sole sole
      exact ⟨next, keys ++ more, by simp [become, present], moved⟩
    | @advance time =>
      have calm := World.Calm.advanceTo between.world time
      refine ⟨phase, keys, present, sole.inert (.of_calm calm) sole.orderly ?_ fun thrives => ⟨thrives, rfl⟩⟩
      exact calm.registry ▸ sole.ledger.mono calm.fresh

theorem Action.Concerns.quiet {id : Nat} (concerns : action.Concerns id) : Quiet action := by
  cases action with
  | register | start => exact concerns.elim
  | look | step | drop | advance => trivial

/-- With nobody at work an entry is complete, or the deferred entry that it was. -/
theorem Idle.entry_cases (idle : system.Idle) (orderly : system.Orderly) {key : Key} {entry : Entry}
    (found : system.world.registry.entry? key = some entry) :
    (∃ value, entry = .complete ⟨key.type, value⟩) ∨ ∃ payload, entry = .deferred payload := by
  cases open' : entry.value with
  | none =>
    obtain ⟨payload, _, same⟩ := orderly.entry_of_idle idle found open'
    exact .inr ⟨payload, same⟩
  | some stored =>
    cases orderly.ledger.fits key entry found with
    | complete => exact .inl ⟨_, rfl⟩
    | deferred => cases open'

/-- With nobody at work the registry tells the deferred entries that are not complete from all others. -/
theorem Idle.entry_of_origin (idle : system.Idle) (orderly : system.Orderly) {key : Key} {payload : Payload}
    (registered : system.world.registry.contents.origin? key = some (.deferred payload)) :
    system.world.registry.entry? key = some (.deferred payload) := by
  rw [Registry.origin?_contents] at registered
  obtain ⟨entry, found, origin⟩ := Option.map_eq_some_iff.mp registered
  rcases idle.entry_cases orderly found with ⟨value, rfl⟩ | ⟨own, rfl⟩
  · cases origin
  · cases origin
    exact found

end System

namespace Process.Sole

variable {first last : System} {world : World} {process : Process} {keys : List Key} {key : Key}

/-- A deferred entry on which there is no claim is as it was, or it has been completed. -/
theorem entry_of_unclaimed
    (sole : process.Sole first.world.registry.contents first.world world keys)
    (unclaimed : Hold.claims process.holds key = 0) {payload : Payload}
    (found : first.world.registry.entry? key = some (.deferred payload)) :
    world.registry.entry? key = some (.deferred payload) ∨
      key ∈ keys ∧ ∃ value, world.registry.get? key.type key = some value := by
  have registered : first.world.registry.contents.origin? key = some (.deferred payload) := by
    rw [Registry.origin?_contents, found]
    rfl
  rcases sole.ledger.entry_of_unclaimed unclaimed registered with same | ⟨value, complete⟩
  · exact .inl same
  · refine .inr ⟨?_, value, complete⟩
    refine (sole.completed key (by rw [complete]; rfl)).resolve_left fun before => ?_
    simp [Registry.get?, found, Entry.deferred] at before

section Rest

variable (orderly : first.Orderly) (idle : first.Idle)
  (sole : process.Sole first.world.registry.contents first.world world keys)

include orderly idle sole

/-- What has begun was needed. -/
theorem needs (member : key ∈ keys) : first.world.registry.Needs process.call.references key := by
  obtain ⟨reached, payload, registered⟩ := sole.reached key member
  exact ⟨reached, payload, idle.entry_of_origin orderly registered⟩

/-- What is claimed is needed. -/
theorem unclaimed (spare : ¬ first.world.registry.Needs process.call.references key) :
    Hold.claims process.holds key = 0 := by
  rw [Hold.claims, Multiset.map_eq_zero, Multiset.filter_eq_nil]
  rintro hold member rfl
  obtain ⟨⟨owner, stake⟩, staked, makes⟩ := (Multiset.mem_filterMap _ _).mp member
  have lawful := sole.orderly.lawful _ staked
  have same : stake.key = hold.key := by
    cases stake <;> cases makes <;> rfl
  obtain ⟨payload, registered⟩ := sole.ledger.placed hold member
  exact spare ⟨same ▸ lawful.reached, payload, idle.entry_of_origin orderly registered⟩

/-- What is not needed is not changed. -/
theorem frame (goes : first.world.Goes world)
    (spare : ¬ first.world.registry.Needs process.call.references key) :
    world.registry.entry? key = first.world.registry.entry? key := by
  cases found : first.world.registry.entry? key with
  | none =>
    have absent : key ∉ first.world.registry.entries.map (·.1) := OrderedMap.get?_eq_none_iff.mp found
    have keys : world.registry.entries.map (·.1) = first.world.registry.entries.map (·.1) :=
      sole.ledger.keys.trans (orderly.ledger_of_idle idle).keys.symm
    rw [← keys] at absent
    exact OrderedMap.get?_eq_none_iff.mpr absent
  | some entry =>
    rcases idle.entry_cases orderly found with ⟨value, rfl⟩ | ⟨payload, rfl⟩
    · have stored : first.world.registry.get? key.type key = some value := by
        simp [Registry.get?, found, Entry.complete, Registry.asType, Except.toOption]
      exact sole.ledger.entry_of_get? (goes.stored key value stored)
    · rcases sole.entry_of_unclaimed (unclaimed orderly idle sole spare) found with same | ⟨begun, _⟩
      · exact same
      · exact absurd (needs orderly idle sole begun) spare

/-- An operation that has come to its value has completed all that its references come to. -/
theorem complete (thrives : process.phase.Thrives) (ended : process.phase.Ended)
    (reached : first.world.registry.contents.Reaches process.call.references key) :
    (world.registry.get? key.type key).isSome := by
  have progress := sole.progress thrives
  have nothing : process.phase.task.stakes none = 0 := by
    cases phase : process.phase with
    | resting | looking => simp [phase, Phase.Ended] at ended
    | returned | dropped => simp [Phase.task]
  rw [nothing] at progress
  refine progress.complete (fun key node usable complete => ?_) reached
  have found := idle.entry_of_origin orderly (Contents.node?_eq_some_iff.mp usable)
  refine (sole.completed key complete).resolve_left fun before => ?_
  simp [Registry.get?, found, Entry.deferred] at before

end Rest

end Process.Sole

namespace System

variable {first started last : System}

end System

end Blueprint
