import Blueprint.Proofs.Machine.Serving
/-! The desk of a registry: all fetches that were ever made on it, whoever made them and whatever their initializers
do, each with what has become of it. Fetches go on one at a time in any order; between them keys are registered. -/

namespace Blueprint

/-- What a fetch came to. -/
inductive Fate where
  /-- the value was there -/
  | hit
  /-- there is nothing of that kind to wait for -/
  | refused (error : RegistryError)
  /-- it waited until another fetch had made the value -/
  | answered
  /-- it was given up while it waited -/
  | withdrawn
  /-- its own initializer made the value -/
  | completed
  /-- its own initializer failed -/
  | failed
  /-- it was given up before its own initializer was over -/
  | cancelled
  deriving DecidableEq

/-- How far a fetch has come. -/
inductive Standing where
  | waiting
  | initializing
  | ended (fate : Fate)
  deriving DecidableEq

/-- A fetch of a key as a value of a type. -/
structure Visit where
  ticket : Nat
  key : Key
  type : TypeName
  owner : Option Key
  /-- whether the entry was complete when the fetch arrived -/
  met : Bool
  standing : Standing
  /-- by how much the fetch has raised the hits of the registry -/
  hits : Nat
  /-- by how much the fetch has raised the initializations of the registry -/
  initializations : Nat

structure Desk where
  registry : Registry
  /-- the keys that were registered with a payload in place of a value -/
  deferred : List Key
  visits : Multiset Visit

/-- What can happen at a desk. Who initializes an entry is known by its key, who waits for one by the ticket as well. -/
inductive Move where
  | register (key : Key) (origin : Origin)
  | arrive (ticket : Nat) (key : Key) (type : TypeName) (owner : Option Key) (strands : List Strand)
  /-- a fetch that waits looks again -/
  | resume (key : Key) (ticket : Nat)
  /-- a fetch that waits is given up -/
  | withdraw (key : Key) (ticket : Nat)
  /-- an initializer has made its value -/
  | complete (key : Key) (value : Value)
  | fail (key : Key)
  /-- a fetch is given up whose initializer is at work -/
  | cancel (key : Key)

def Move.isArrival : Move → Bool
  | arrive _ _ _ _ _ => true
  | _ => false

/-- Where a fetch stands that has just arrived. -/
def Registry.Arrival.standing : Arrival → Standing
  | refused error => .ended (.refused error)
  | found _ => .ended .hit
  | turn _ => .initializing
  | queued _ => .waiting

/-- Where a fetch stands that waited and has looked again. -/
def Registry.Resumption.standing : Resumption → Standing
  | waiting => .waiting
  | found _ => .ended .answered
  | refused error => .ended (.refused error)
  | turn => .initializing

/-- Whether the entry under a key has a value. -/
def Registry.complete (registry : Registry) (key : Key) : Bool := (registry.entry? key).any Entry.isComplete

/-- The keys that a registration defers. -/
def Origin.defers (key : Key) : Origin → List Key
  | .value _ => []
  | .deferred _ => [key]

namespace Desk

def initial : Desk := ⟨.empty, [], 0⟩

/-- A fetch that now stands elsewhere and has changed the registry. -/
def moved (desk : Desk) (registry : Registry) (visit : Visit) (standing : Standing) : Visit :=
  { visit with
    standing
    hits := visit.hits + (registry.hits - desk.registry.hits)
    initializations := visit.initializations + (registry.initializations - desk.registry.initializations) }

/-- One fetch among all moves. -/
def put (desk : Desk) (registry : Registry) (visit : Visit) (standing : Standing) (rest : Multiset Visit) : Desk :=
  { desk with registry, visits := desk.moved registry visit standing ::ₘ rest }

/-- What a move does. -/
inductive Moves : Move → Desk → Desk → Prop where
  | registered {desk : Desk} {key : Key} {origin : Origin} {registry : Registry}
      (accepted : desk.registry.register key (origin.entry key) = .ok registry) :
      Moves (.register key origin) desk { desk with registry, deferred := desk.deferred ++ origin.defers key }
  | rejected {desk : Desk} {key : Key} {origin : Origin} {error : RegistryError}
      (taken : desk.registry.register key (origin.entry key) = .error error) :
      Moves (.register key origin) desk desk
  | arrive {desk : Desk} {ticket : Nat} {key : Key} {type : TypeName} {owner : Option Key} {strands : List Strand}
      {arrival : Registry.Arrival} {registry : Registry}
      (arrives : desk.registry.arrive type key owner ⟨ticket, strands⟩ = (arrival, registry)) :
      Moves (.arrive ticket key type owner strands) desk
        (desk.put registry ⟨ticket, key, type, owner, desk.registry.complete key, .waiting, 0, 0⟩ arrival.standing
          desk.visits)
  | waits {desk : Desk} {visit : Visit} {rest : Multiset Visit} {registry : Registry}
      (present : desk.visits = visit ::ₘ rest) (waiting : visit.standing = .waiting)
      (looks : desk.registry.resume visit.type visit.key visit.ticket = (.waiting, registry)) :
      Moves (.resume visit.key visit.ticket) desk (desk.put registry visit .waiting rest)
  | turn {desk : Desk} {visit : Visit} {rest : Multiset Visit} {registry : Registry}
      (present : desk.visits = visit ::ₘ rest) (waiting : visit.standing = .waiting)
      (looks : desk.registry.resume visit.type visit.key visit.ticket = (.turn, registry)) :
      Moves (.resume visit.key visit.ticket) desk (desk.put registry visit .initializing rest)
  | answered {desk : Desk} {visit : Visit} {rest : Multiset Visit} {value : Value} {registry : Registry}
      (present : desk.visits = visit ::ₘ rest) (waiting : visit.standing = .waiting)
      (looks : desk.registry.resume visit.type visit.key visit.ticket = (.found value, registry)) :
      Moves (.resume visit.key visit.ticket) desk
        (desk.put (registry.unlink visit.owner visit.key) visit (.ended .answered) rest)
  | refused {desk : Desk} {visit : Visit} {rest : Multiset Visit} {error : RegistryError} {registry : Registry}
      (present : desk.visits = visit ::ₘ rest) (waiting : visit.standing = .waiting)
      (looks : desk.registry.resume visit.type visit.key visit.ticket = (.refused error, registry)) :
      Moves (.resume visit.key visit.ticket) desk
        (desk.put (registry.unlink visit.owner visit.key) visit (.ended (.refused error)) rest)
  | withdraw {desk : Desk} {visit : Visit} {rest : Multiset Visit}
      (present : desk.visits = visit ::ₘ rest) (waiting : visit.standing = .waiting) :
      Moves (.withdraw visit.key visit.ticket) desk
        (desk.put ((desk.registry.withdraw visit.key visit.ticket).2.unlink visit.owner visit.key) visit
          (.ended .withdrawn) rest)
  | complete {desk : Desk} {visit : Visit} {rest : Multiset Visit} (value : Value)
      (present : desk.visits = visit ::ₘ rest) (initializes : visit.standing = .initializing) :
      Moves (.complete visit.key value) desk
        (desk.put ((desk.registry.settle visit.key ⟨visit.type, value⟩).2.unlink visit.owner visit.key) visit
          (.ended .completed) rest)
  | fail {desk : Desk} {visit : Visit} {rest : Multiset Visit}
      (present : desk.visits = visit ::ₘ rest) (initializes : visit.standing = .initializing) :
      Moves (.fail visit.key) desk
        (desk.put ((desk.registry.release visit.key).2.unlink visit.owner visit.key) visit (.ended .failed) rest)
  | cancel {desk : Desk} {visit : Visit} {rest : Multiset Visit}
      (present : desk.visits = visit ::ₘ rest) (initializes : visit.standing = .initializing) :
      Moves (.cancel visit.key) desk
        (desk.put ((desk.registry.release visit.key).2.unlink visit.owner visit.key) visit (.ended .cancelled) rest)

/-- Moves one after another. -/
inductive Run : List Move → Desk → Desk → Prop where
  | nil (desk : Desk) : Run [] desk desk
  | cons {move : Move} {moves : List Move} {first second third : Desk} (moved : Moves move first second)
      (rest : Run moves second third) : Run (move :: moves) first third

theorem Run.append {moves more : List Move} {first second third : Desk} (run : Run moves first second)
    (later : Run more second third) : Run (moves ++ more) first third := by
  induction run with
  | nil => exact later
  | cons moved _ ih => exact .cons moved (ih later)

theorem Run.single {move : Move} {first second : Desk} (moved : Moves move first second) : Run [move] first second :=
  .cons moved (.nil second)

end Desk

/-! ### What the registry keeps -/

namespace Registry

variable {registry before after first second third linked : Registry} {key other : Key}

/-- What is stored under a key: the value, or the payload that is still there. -/
def kept? (registry : Registry) (key : Key) : Option (Option Stored × Option Payload) :=
  (registry.entry? key).map fun entry => (entry.value, entry.payload)

/-- Whether an initializer is at work on an entry. -/
def busy (registry : Registry) (key : Key) : Bool :=
  (registry.entry? key).any fun entry => entry.value.isNone && decide (entry.gate = .held)

theorem complete_eq (registry : Registry) (key : Key) :
    registry.complete key = (registry.kept? key).any fun kept => kept.1.isSome := by
  rw [complete, kept?, Option.any_map]
  rfl

theorem complete_congr (same : after.kept? key = before.kept? key) : after.complete key = before.complete key := by
  rw [complete_eq, complete_eq, same]

/-- A registered entry stands beside the others. -/
theorem entry?_register {entry : Entry} (accepted : registry.register key entry = .ok after) (other : Key) :
    after.entry? other = if other = key then some entry else registry.entry? other := by
  obtain ⟨free, rfl⟩ := Ledger.register_ok accepted
  rw [Registry.entry?, OrderedMap.get?_append, OrderedMap.get?_cons]
  by_cases same : other = key
  · rw [if_pos same.symm, if_pos same, same]
    exact (congrArg (Option.or · _) free).trans Option.none_or
  · rw [if_neg (Ne.symm same), if_neg same]
    exact Option.or_none

/-- To change an entry that stays complete if it is takes no value away. -/
theorem completed_modify {change : Entry → Entry}
    (keeps : ∀ entry : Entry, entry.isComplete = true → (change entry).isComplete = true) :
    registry.completed ≤ (registry.modify key change).completed := by
  rw [completed, completed, modify, ← List.countP_eq_length_filter, ← List.countP_eq_length_filter, List.countP_map]
  refine List.countP_mono_left fun stored member complete => ?_
  by_cases same : stored.1 = key
  · simpa [same] using keeps stored.2 complete
  · simpa [same] using complete

/-- Only who waits for one entry changes, and who initializes it. -/
structure Stirs (key : Key) (before after : Registry) : Prop where
  kept : ∀ other, after.kept? other = before.kept? other
  busy : ∀ other, other ≠ key → after.busy other = before.busy other
  hits : after.hits = before.hits
  size : after.size = before.size
  completed : before.completed ≤ after.completed

namespace Stirs

theorem refl (registry : Registry) : registry.Stirs key registry :=
  ⟨fun _ => rfl, fun _ _ => rfl, rfl, rfl, Nat.le_refl _⟩

theorem trans (left : first.Stirs key second) (right : second.Stirs key third) : first.Stirs key third :=
  ⟨fun other => (right.kept other).trans (left.kept other),
    fun other apart => (right.busy other apart).trans (left.busy other apart), right.hits.trans left.hits,
    right.size.trans left.size, left.completed.trans right.completed⟩

/-- Where the entries stay what they are. -/
theorem of_entries (same : after.entries = before.entries) (hits : after.hits = before.hits) :
    before.Stirs key after where
  kept other := by rw [kept?, kept?, entry?, entry?, same]
  busy other _ := by rw [Registry.busy, Registry.busy, entry?, entry?, same]
  hits := hits
  size := by rw [Registry.size, Registry.size, same]
  completed := by rw [Registry.completed, Registry.completed, same]

theorem modify (registry : Registry) (key : Key) (change : Entry → Entry)
    (keeps : ∀ entry, (change entry).value = entry.value ∧ (change entry).payload = entry.payload) :
    registry.Stirs key (registry.modify key change) where
  kept other := by
    rw [kept?, kept?, entry?_modify]
    by_cases same : other = key
    · rw [if_pos same, same, Option.map_map]
      congr 1
      funext entry
      exact Prod.ext (keeps entry).1 (keeps entry).2
    · rw [if_neg same]
  busy other apart := by rw [Registry.busy, Registry.busy, entry?_modify_other _ _ _ apart]
  hits := rfl
  size := List.length_map _
  completed := completed_modify fun entry complete => by rwa [Entry.isComplete, (keeps entry).1]

theorem unlink (registry : Registry) (owner : Option Key) (key : Key) :
    registry.Stirs key (registry.unlink owner key) := by
  refine of_entries (unlink_entries registry key owner) ?_
  cases owner <;> rfl

theorem beginTurn (registry : Registry) (key : Key) : registry.Stirs key (registry.beginTurn key) := by
  have stirs := modify registry key (fun entry => { entry with gate := .held }) fun _ => ⟨rfl, rfl⟩
  exact stirs.trans (of_entries rfl rfl)

theorem release (registry : Registry) (key : Key) : registry.Stirs key (registry.release key).2 := by
  unfold Registry.release
  split
  · dsimp only
    exact modify registry key _ fun entry => ⟨rfl, rfl⟩
  · dsimp only
    exact modify registry key _ fun entry => ⟨rfl, rfl⟩

theorem withdraw (registry : Registry) (key : Key) (ticket : Nat) :
    registry.Stirs key (registry.withdraw key ticket).2 := by
  unfold Registry.withdraw
  split
  · exact release registry key
  · dsimp only
    exact modify registry key _ fun entry => ⟨rfl, rfl⟩

end Stirs

theorem busy_congr (same : after.entries = before.entries) : after.busy key = before.busy key := by
  rw [busy, busy, entry?, entry?, same]

theorem busy_unlink (owner : Option Key) : (registry.unlink owner other).busy key = registry.busy key :=
  busy_congr (unlink_entries registry other owner)

/-- Where a turn begins an initializer is at work. -/
theorem busy_beginTurn {payload : Option Payload} (kept : registry.kept? key = some (none, payload)) :
    (registry.beginTurn key).busy key = true := by
  obtain ⟨entry, found, same⟩ := Option.map_eq_some_iff.mp kept
  have open' : entry.value = none := congrArg Prod.fst same
  have held : Registry.entry? (registry.beginTurn key) key = some { entry with gate := .held } := by
    have modified := entry?_modify_self registry key fun entry => { entry with gate := .held }
    rwa [found] at modified
  rw [busy, held]
  simp [open']

/-- Where a turn is given back none is. -/
theorem busy_release (registry : Registry) (key : Key) : (registry.release key).2.busy key = false := by
  unfold release
  split <;> (rw [busy, entry?_modify_self]; cases registry.entry? key <;> simp)

/-- Nobody initializes an entry whose gate is not held. -/
theorem busy_of_gate {entry : Entry} (found : registry.entry? key = some entry) (apart : entry.gate ≠ .held) :
    registry.busy key = false := by
  rw [busy, found]
  simp [apart]

theorem unlink_initializations (owner : Option Key) :
    (registry.unlink owner key).initializations = registry.initializations := by
  cases owner <;> rfl

/-- The value of an entry is made. -/
theorem kept?_settle {kept : Option Stored × Option Payload} (found : registry.kept? key = some kept)
    (stored : Stored) : (registry.settle key stored).2.kept? key = some (some stored, none) := by
  obtain ⟨entry, there, _⟩ := Option.map_eq_some_iff.mp found
  rw [kept?, settle, entry?_modify_self, there]
  rfl

theorem kept?_settle_other {stored : Stored} (apart : other ≠ key) :
    (registry.settle key stored).2.kept? other = registry.kept? other := by
  rw [kept?, kept?, settle, entry?_modify_other _ _ _ apart]

theorem busy_settle_other {stored : Stored} (apart : other ≠ key) :
    (registry.settle key stored).2.busy other = registry.busy other := by
  rw [busy, busy, settle, entry?_modify_other _ _ _ apart]

/-- To go away from a queue makes no difference to who initializes the entry. -/
theorem busy_withdraw (registry : Registry) (key : Key) (ticket : Nat) :
    (registry.withdraw key ticket).2.busy key = registry.busy key := by
  unfold withdraw
  split
  next granted =>
    obtain ⟨entry, found, gate⟩ := (Option.any_eq_true _ _).mp granted
    have apart : entry.gate ≠ .held := by
      rw [of_decide_eq_true gate]
      exact nofun
    rw [busy_release, busy_of_gate found apart]
  next =>
    rw [busy, busy, entry?_modify_self]
    cases registry.entry? key <;> rfl

/-- How a fetch arrives where every value is stored as one of the type of its key: it is refused and changes nothing; it
finds the value and is counted; it is to initialize the entry, which nobody does; or it goes into the queue. -/
inductive Arrives (registry : Registry) (type : TypeName) (key : Key) : Arrival → Registry → Prop where
  | refused {error : RegistryError} (vain : ¬ (registry.complete key = true ∧ type = key.type)) :
      Arrives registry type key (.refused error) registry
  | found {value : Value} (complete : registry.complete key = true) (typed : type = key.type) :
      Arrives registry type key (.found value) { registry with hits := registry.hits + 1 }
  | turn {payload : Payload} {after : Registry} (typed : type = key.type)
      (kept : registry.kept? key = some (none, some payload)) (idle : registry.busy key = false)
      (stirs : registry.Stirs key after) (busy : after.busy key = true) :
      Arrives registry type key (.turn payload) after
  | queued {payload : Payload} {after : Registry} (typed : type = key.type)
      (kept : registry.kept? key = some (none, some payload)) (stirs : registry.Stirs key after)
      (busy : after.busy key = registry.busy key) :
      Arrives registry type key (.queued payload) after

theorem link_hits {owner : Option Key} (accepted : registry.link owner key = .ok linked) :
    linked.hits = registry.hits := by
  rw [link_ok accepted]

theorem arrive_arrives {type : TypeName} {owner : Option Key} {waiter : Waiter} {arrival : Arrival}
    (typed : ∀ stored payload, registry.kept? key = some (some stored, payload) → stored.type = key.type)
    (arrives : registry.arrive type key owner waiter = (arrival, after)) :
    registry.Arrives type key arrival after := by
  unfold arrive at arrives
  split at arrives
  next apart =>
    cases arrives
    exact .refused fun both => apart both.2.symm
  next same =>
    rw [ne_eq, not_not] at same
    split at arrives
    next absent =>
      cases arrives
      exact .refused fun both => by simp [complete, absent] at both
    next stored payload gate queue found =>
      have own : stored.type = key.type := typed stored payload (by rw [kept?, found]; rfl)
      have right : asType key type stored = .ok stored.value := if_pos (own.trans same)
      rw [right] at arrives
      cases arrives
      exact .found (by rw [complete, found]; rfl) same.symm
    next gate queue found =>
      cases arrives
      exact .refused fun both => by simp [complete, found, Entry.isComplete] at both
    next payload gate queue found =>
      have kept : registry.kept? key = some (none, some payload) := by rw [kept?, found]; rfl
      split at arrives
      next error _ =>
        cases arrives
        exact .refused fun both => by simp [complete, found, Entry.isComplete] at both
      next linked accepted =>
        have entries := link_entries accepted
        have stirs : registry.Stirs key linked := .of_entries entries (link_hits accepted)
        split at arrives
        next =>
          cases arrives
          exact .turn same.symm kept (busy_of_gate found nofun) (stirs.trans (.beginTurn linked key))
            (busy_beginTurn ((stirs.kept key).trans kept))
        all_goals
          cases arrives
          refine .queued same.symm kept (stirs.trans (.modify linked key _ fun entry => ⟨rfl, rfl⟩)) ?_
          have same : linked.busy key = registry.busy key := busy_congr entries
          rw [← same, busy, busy, entry?_modify_self]
          cases linked.entry? key <;> rfl

namespace Arrives

variable {type : TypeName} {arrival : Arrival}

theorem kept (arrives : registry.Arrives type key arrival after) (other : Key) :
    after.kept? other = registry.kept? other := by
  cases arrives with
  | refused vain => rfl
  | found complete typed => rfl
  | turn typed kept idle stirs busy => exact stirs.kept other
  | queued typed kept stirs busy => exact stirs.kept other

theorem met (arrives : registry.Arrives type key arrival after) :
    arrival.standing = .ended .hit ↔ registry.complete key = true ∧ type = key.type := by
  have open' : ∀ payload, registry.kept? key = some (none, some payload) → registry.complete key = false := by
    intro payload kept
    rw [complete_eq, kept]
    rfl
  cases arrives with
  | refused vain => exact ⟨nofun, fun both => absurd both vain⟩
  | found complete typed => exact ⟨fun _ => ⟨complete, typed⟩, fun _ => rfl⟩
  | turn typed kept idle stirs busy => simp [Arrival.standing, open' _ kept]
  | queued typed kept stirs busy => simp [Arrival.standing, open' _ kept]

/-- Whoever stays asks for the type of the key. -/
theorem typed (arrives : registry.Arrives type key arrival after)
    (stays : arrival.standing = .waiting ∨ arrival.standing = .initializing) : type = key.type := by
  cases arrives with
  | refused vain => simp [Arrival.standing] at stays
  | found complete typed => exact typed
  | turn typed kept idle stirs busy => exact typed
  | queued typed kept stirs busy => exact typed

theorem hits (arrives : registry.Arrives type key arrival after) :
    after.hits = registry.hits + if arrival.standing = .ended .hit then 1 else 0 := by
  cases arrives with
  | refused vain => rfl
  | found complete typed => rfl
  | turn typed kept idle stirs busy => exact stirs.hits
  | queued typed kept stirs busy => exact stirs.hits

/-- The gate of an entry has room for one. -/
theorem seated (arrives : registry.Arrives type key arrival after) {others : Nat}
    (before : others ≤ if registry.busy key then 1 else 0) :
    (others + if arrival.standing = .initializing then 1 else 0) ≤ if after.busy key then 1 else 0 := by
  cases arrives with
  | refused vain => exact before
  | found complete typed => exact before
  | turn typed kept idle stirs busy =>
    rw [idle] at before
    rw [if_pos busy]
    exact Nat.add_le_add_right before 1
  | queued typed kept stirs busy =>
    rw [busy]
    exact before

theorem busy (arrives : registry.Arrives type key arrival after) {other : Key} (apart : other ≠ key) :
    after.busy other = registry.busy other := by
  cases arrives with
  | refused vain => rfl
  | found complete typed => rfl
  | turn typed kept idle stirs busy => exact stirs.busy other apart
  | queued typed kept stirs busy => exact stirs.busy other apart

end Arrives

/-- How a fetch looks again. -/
inductive Resumes (registry : Registry) (key : Key) : Resumption → Registry → Prop where
  | waiting : Resumes registry key .waiting registry
  | found {value : Value} : Resumes registry key (.found value) registry
  | refused {error : RegistryError} : Resumes registry key (.refused error) registry
  | turn {after : Registry} (idle : registry.busy key = false) (stirs : registry.Stirs key after)
      (busy : after.busy key = true) :
      Resumes registry key .turn after

theorem resume_resumes {type : TypeName} {ticket : Nat} {resumption : Resumption}
    (looks : registry.resume type key ticket = (resumption, after)) : registry.Resumes key resumption after := by
  unfold resume at looks
  split at looks
  next =>
    cases looks
    exact .waiting
  next =>
    split at looks
    · cases looks
      exact .found
    · cases looks
      exact .refused
  next payload gate queue found =>
    split at looks
    next granted =>
      cases looks
      have kept : registry.kept? key = some (none, payload) := by rw [kept?, found]; rfl
      exact .turn (busy_of_gate found (by rw [granted]; exact nofun)) (.beginTurn registry key)
        (busy_beginTurn kept)
    next =>
      cases looks
      exact .waiting

/-- None of the figures has become smaller. -/
structure Grows (before after : Registry) : Prop where
  entries : before.stats.entries ≤ after.stats.entries
  completed : before.stats.completed ≤ after.stats.completed
  hits : before.stats.hits ≤ after.stats.hits
  initializations : before.stats.initializations ≤ after.stats.initializations

namespace Grows

theorem refl (registry : Registry) : registry.Grows registry :=
  ⟨Nat.le_refl _, Nat.le_refl _, Nat.le_refl _, Nat.le_refl _⟩

theorem trans (left : first.Grows second) (right : second.Grows third) : first.Grows third :=
  ⟨left.entries.trans right.entries, left.completed.trans right.completed, left.hits.trans right.hits,
    left.initializations.trans right.initializations⟩

theorem of_stirs (stirs : before.Stirs key after) (counted : before.initializations ≤ after.initializations) :
    before.Grows after where
  entries := stirs.size.ge
  completed := stirs.completed
  hits := stirs.hits.ge
  initializations := counted

theorem unlink (registry : Registry) (owner : Option Key) (key : Key) : registry.Grows (registry.unlink owner key) :=
  of_stirs (.unlink registry owner key) (unlink_initializations owner).ge

theorem release (registry : Registry) (key : Key) : registry.Grows (registry.release key).2 :=
  of_stirs (.release registry key) (release_initializations key).ge

theorem withdraw (registry : Registry) (key : Key) (ticket : Nat) : registry.Grows (registry.withdraw key ticket).2 :=
  of_stirs (.withdraw registry key ticket) (withdraw_initializations key ticket).ge

theorem settle (registry : Registry) (key : Key) (stored : Stored) : registry.Grows (registry.settle key stored).2 where
  entries := (List.length_map _).ge
  completed := completed_modify fun _ _ => rfl
  hits := Nat.le_refl _
  initializations := Nat.le_refl _

theorem register {entry : Entry} (accepted : registry.register key entry = .ok after) : registry.Grows after := by
  obtain ⟨free, rfl⟩ := Ledger.register_ok accepted
  refine ⟨?_, ?_, Nat.le_refl _, Nat.le_refl _⟩
  · show registry.entries.length ≤ (registry.entries ++ [(key, entry)]).length
    rw [List.length_append]
    exact Nat.le_add_right _ _
  · show registry.completed ≤ Registry.completed _
    rw [Registry.completed, Registry.completed, List.filter_append, List.length_append]
    exact Nat.le_add_right _ _

theorem resume {type : TypeName} {ticket : Nat} {resumption : Resumption}
    (looks : registry.resume type key ticket = (resumption, after)) : registry.Grows after := by
  have counted := registry.resume_initializations type key ticket
  rw [looks] at counted
  cases resume_resumes looks with
  | waiting => exact refl registry
  | found => exact refl registry
  | refused => exact refl registry
  | turn idle stirs busy => exact of_stirs stirs (counted ▸ Nat.le_add_right _ _)

end Grows

theorem Arrives.grows {type : TypeName} {arrival : Arrival} (arrives : registry.Arrives type key arrival after)
    (counted : after.initializations = registry.initializations + arrival.starts) : registry.Grows after := by
  cases arrives with
  | refused vain => exact .refl registry
  | found complete typed => exact ⟨Nat.le_refl _, Nat.le_refl _, Nat.le_succ _, Nat.le_refl _⟩
  | turn typed kept idle stirs busy => exact .of_stirs stirs (counted ▸ Nat.le_add_right _ _)
  | queued typed kept stirs busy => exact .of_stirs stirs (counted ▸ Nat.le_add_right _ _)

end Registry

end Blueprint
