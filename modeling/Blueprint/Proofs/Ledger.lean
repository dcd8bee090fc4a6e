import Blueprint.Proofs.Contents
import Blueprint.Proofs.Task.Stakes
import Blueprint.Proofs.WaitGraph.Edges
/-! The registry as a ledger of the claims on its entries. Every fetch that initializes an entry or waits
for one holds a claim. The gates and queues of entries and the edges of the wait graph say the same as
the claims do, and every operation of the registry enters or strikes out one claim. -/

namespace Blueprint

/-- A claim of a fetch on an entry, made on behalf of another entry or of nobody. A fetch in the queue
has a ticket; one that is initializing the entry has none. -/
structure Hold where
  owner : Option Key
  key : Key
  ticket : Option Nat
  deriving DecidableEq

/-- The claim that a stake makes. -/
def Stake.hold? (owner : Option Key) : Stake → Option Hold
  | pending _ _ => none
  | waiting fetch ticket => some ⟨owner, fetch.key, some ticket⟩
  | turn fetch => some ⟨owner, fetch.key, none⟩

/-- The claims among some stakes. -/
def Stakes.holds (stakes : Stakes) : Multiset Hold :=
  stakes.filterMap fun stake => stake.2.hold? stake.1

namespace Stakes

@[simp] theorem holds_zero : holds 0 = 0 := rfl

@[simp] theorem holds_add (first second : Stakes) : holds (first + second) = holds first + holds second :=
  Multiset.filterMap_add _ _ _

@[simp] theorem holds_waiting (owner : Option Key) (fetch : Fetch) (ticket : Nat) :
    holds {(owner, .waiting fetch ticket)} = {⟨owner, fetch.key, some ticket⟩} := rfl

@[simp] theorem holds_turn (owner : Option Key) (fetch : Fetch) :
    holds {(owner, .turn fetch)} = {⟨owner, fetch.key, none⟩} := rfl

@[simp] theorem holds_pendings (owner : Option Key) (references : List Key) (anchor : Anchor) :
    holds (pendings owner references anchor) = 0 := by
  simp [holds, pendings, Stake.hold?, List.filterMap_map]

end Stakes

namespace Hold

/-- The waits that claims stand for. -/
def edges (holds : Multiset Hold) : Multiset (Key × Key) :=
  holds.filterMap fun hold => hold.owner.map (·, hold.key)

/-- The tickets of the fetches that wait. -/
def tickets (holds : Multiset Hold) : Multiset Nat :=
  holds.filterMap Hold.ticket

/-- The claims on one entry: the tickets of those who wait, and nothing for who initializes it. -/
def claims (holds : Multiset Hold) (key : Key) : Multiset (Option Nat) :=
  (holds.filter fun hold => hold.key = key).map Hold.ticket

variable {hold : Hold} {holds : Multiset Hold} {key : Key}

@[simp] theorem claims_cons_self (owner : Option Key) (ticket : Option Nat) :
    claims (⟨owner, key, ticket⟩ ::ₘ holds) key = ticket ::ₘ claims holds key := by
  simp [claims]

theorem claims_cons_other (other : hold.key ≠ key) : claims (hold ::ₘ holds) key = claims holds key := by
  simp [claims, other]

theorem mem_tickets {ticket : Nat} : ticket ∈ tickets holds ↔ ∃ hold ∈ holds, hold.ticket = some ticket := by
  simp [tickets, Multiset.mem_filterMap]

theorem mem_tickets_of_claims {ticket : Nat} (claimed : some ticket ∈ claims holds key) :
    ticket ∈ tickets holds := by
  obtain ⟨hold, member, same⟩ := Multiset.mem_map.mp claimed
  exact mem_tickets.mpr ⟨hold, Multiset.mem_of_mem_filter member, same⟩

theorem mem_edges {owner target : Key} :
    (owner, target) ∈ edges holds ↔ ∃ hold ∈ holds, hold.owner = some owner ∧ hold.key = target := by
  simp only [edges, Multiset.mem_filterMap, Option.map_eq_some_iff, Prod.mk.injEq]
  constructor
  · rintro ⟨hold, member, _, found, rfl, same⟩
    exact ⟨hold, member, found, same⟩
  · rintro ⟨hold, member, found, same⟩
    exact ⟨hold, member, owner, found, rfl, same⟩

@[simp] theorem tickets_cons_turn (owner : Option Key) :
    tickets (⟨owner, key, none⟩ ::ₘ holds) = tickets holds := by
  simp [tickets]

@[simp] theorem tickets_cons_waiting (owner : Option Key) (ticket : Nat) :
    tickets (⟨owner, key, some ticket⟩ ::ₘ holds) = ticket ::ₘ tickets holds := by
  simp [tickets]

@[simp] theorem edges_cons_some (owner : Key) (ticket : Option Nat) :
    edges (⟨some owner, key, ticket⟩ ::ₘ holds) = (owner, key) ::ₘ edges holds := by
  simp [edges]

@[simp] theorem edges_cons_none (ticket : Option Nat) :
    edges (⟨none, key, ticket⟩ ::ₘ holds) = edges holds := by
  simp [edges]

end Hold

/-- How the claims on an entry that is not complete are arranged: nobody has any, one fetch is
initializing it, or one whose turn has come is about to; all others stand in the queue. -/
inductive Seated : Gate → List Waiter → Multiset (Option Nat) → Prop where
  | idle : Seated .idle [] 0
  | held (queue : List Waiter) : Seated .held queue (none ::ₘ ↑(queue.map fun waiter => some waiter.ticket))
  | granted (ticket : Nat) (queue : List Waiter) :
    Seated (.granted ticket) queue (some ticket ::ₘ ↑(queue.map fun waiter => some waiter.ticket))

/-- What an entry looks like under the claims on it. A complete one holds what its key means and nobody
initializes it; one that is not complete still has the payload it was registered with. -/
inductive Fits (contents : Contents) (key : Key) : Entry → Multiset (Option Nat) → Prop where
  | complete {value : Value} {claims : Multiset (Option Nat)} (known : contents.valueOf [] key = some value)
      (nobody : none ∉ claims) : Fits contents key (.complete ⟨key.type, value⟩) claims
  | deferred {payload : Payload} {gate : Gate} {queue : List Waiter} {claims : Multiset (Option Nat)}
      (registered : contents.origin? key = some (.deferred payload)) (seated : Seated gate queue claims) :
      Fits contents key ⟨none, some payload, gate, queue⟩ claims

/-- The wait graph says what the claims say, and nobody waits for itself. -/
structure WaitGraph.Records (graph : WaitGraph) (holds : Multiset Hold) : Prop where
  tidy : graph.Tidy
  acyclic : graph.Acyclic
  edges : graph.bag = Hold.edges holds

/-- The registry agrees with what was registered and with the claims on its entries. -/
structure Ledger (contents : Contents) (registry : Registry) (fresh : Nat) (holds : Multiset Hold) :
    Prop where
  keys : registry.entries.map (·.1) = contents.map (·.1)
  distinct : (contents.map (·.1)).Nodup
  fits : ∀ key entry, registry.entry? key = some entry → Fits contents key entry (Hold.claims holds key)
  placed : ∀ hold ∈ holds, ∃ payload, contents.origin? hold.key = some (.deferred payload)
  refers : ∀ hold ∈ holds, ∀ owner, hold.owner = some owner → contents.Refers owner hold.key
  records : registry.waits.Records holds
  tickets : (Hold.tickets holds).Nodup
  issued : ∀ ticket ∈ Hold.tickets holds, ticket < fresh

namespace Registry

variable (registry : Registry) (key : Key) (change : Entry → Entry)

theorem modify_keys : (registry.modify key change).entries.map (·.1) = registry.entries.map (·.1) := by
  simp [modify, Function.comp_def]

theorem entry?_modify (other : Key) : Registry.entry? (registry.modify key change) other =
    if other = key then (registry.entry? key).map change else registry.entry? other := by
  simp only [Registry.entry?, modify]
  induction registry.entries with
  | nil => simp
  | cons entry rest ih =>
    rw [List.map_cons, OrderedMap.get?_cons, OrderedMap.get?_cons, OrderedMap.get?_cons, ih]
    by_cases same : entry.1 = other
    · by_cases here : other = key
      · simp [same, here]
      · simp [same, here]
    · by_cases here : other = key
      · have apart : entry.1 ≠ key := here ▸ same
        simp [here, apart]
      · simp [same, here]

theorem entry?_modify_self : Registry.entry? (registry.modify key change) key = (registry.entry? key).map change := by
  rw [entry?_modify, if_pos rfl]

theorem entry?_modify_other {other : Key} (different : other ≠ key) :
    Registry.entry? (registry.modify key change) other = registry.entry? other := by
  rw [entry?_modify, if_neg different]

theorem unlink_entries (owner : Option Key) : (registry.unlink owner key).entries = registry.entries := by
  cases owner <;> rfl

/-- A wait that is recorded changes nothing else. -/
theorem link_ok {registry linked : Registry} {owner : Option Key} {key : Key}
    (accepted : registry.link owner key = .ok linked) : linked = { registry with waits := linked.waits } := by
  unfold link at accepted
  split at accepted
  · cases accepted
    rfl
  · split at accepted
    · cases accepted
    · cases accepted
      rfl

theorem link_entries {registry linked : Registry} {owner : Option Key} {key : Key}
    (accepted : registry.link owner key = .ok linked) : linked.entries = registry.entries := by
  rw [link_ok accepted]

/-- All that may become of a fetch. Only one that goes to work or joins the queue has its wait recorded. -/
inductive Arriving (registry : Registry) (key : Key) (owner : Option Key) (waiter : Waiter) :
    Arrival × Registry → Prop where
  | refused (error : RegistryError) : Arriving registry key owner waiter (.refused error, registry)
  | found (value : Value) :
      Arriving registry key owner waiter (.found value, { registry with hits := registry.hits + 1 })
  | mistyped (error : RegistryError) :
      Arriving registry key owner waiter (.refused error, { registry with hits := registry.hits + 1 })
  | turn {payload : Payload} {queue : List Waiter} {linked : Registry}
      (present : registry.entry? key = some ⟨none, some payload, .idle, queue⟩)
      (accepted : registry.link owner key = .ok linked) :
      Arriving registry key owner waiter (.turn payload, linked.beginTurn key)
  | queued {payload : Payload} {gate : Gate} {queue : List Waiter} {linked : Registry}
      (present : registry.entry? key = some ⟨none, some payload, gate, queue⟩)
      (accepted : registry.link owner key = .ok linked) :
      Arriving registry key owner waiter
        (.queued payload, linked.modify key fun entry => { entry with queue := entry.queue ++ [waiter] })

theorem arrive_arriving (registry : Registry) (type : TypeName) (key : Key) (owner : Option Key) (waiter : Waiter) :
    Arriving registry key owner waiter (registry.arrive type key owner waiter) := by
  unfold arrive
  split
  · exact .refused _
  · split
    · exact .refused _
    · dsimp only
      split
      · exact .found _
      · exact .mistyped _
    · exact .refused _
    next payload gate queue present =>
      split
      · exact .refused _
      next linked accepted =>
        split
        · exact .turn present accepted
        · exact .queued present accepted
        · exact .queued present accepted

end Registry

namespace WaitGraph.Records

variable {registry linked : Registry} {hold : Hold} {holds : Multiset Hold}

theorem unlink (records : registry.waits.Records (hold ::ₘ holds)) :
    (registry.unlink hold.owner hold.key).waits.Records holds := by
  obtain ⟨owner, key, ticket⟩ := hold
  cases owner with
  | none => exact ⟨records.tidy, records.acyclic, by simpa [Registry.unlink] using records.edges⟩
  | some owner =>
    have edges := records.edges
    rw [Hold.edges_cons_some] at edges
    have present : (owner, key) ∈ registry.waits.bag := edges ▸ Multiset.mem_cons_self _ _
    have removed := (remove_spec records.tidy.distinct present).2
    refine ⟨remove_tidy records.tidy present,
      remove_acyclic records.tidy.distinct records.acyclic present, ?_⟩
    exact (Multiset.cons_inj_right _).mp (removed.symm.trans edges)

theorem link (records : registry.waits.Records holds) (hold : Hold)
    (accepted : registry.link hold.owner hold.key = .ok linked) :
    linked.waits.Records (hold ::ₘ holds) := by
  obtain ⟨owner, key, ticket⟩ := hold
  unfold Registry.link at accepted
  cases owner with
  | none =>
    cases accepted
    exact ⟨records.tidy, records.acyclic, by simpa using records.edges⟩
  | some owner =>
    dsimp only at accepted
    split at accepted
    next => cases accepted
    next waits added =>
      cases accepted
      exact ⟨add_tidy records.tidy added, add_acyclic records.tidy.distinct records.acyclic added, by
        rw [add_bag records.tidy.distinct added, records.edges, Hold.edges_cons_some]⟩

end WaitGraph.Records

namespace Seated

variable {queue : List Waiter} {claims : Multiset (Option Nat)}

/-- If one claim is that of an initializer, all others stand in the queue. -/
theorem of_turn {gate : Gate} (seated : Seated gate queue (none ::ₘ claims)) :
    gate = .held ∧ claims = ↑(queue.map fun waiter => some waiter.ticket) := by
  generalize same : none ::ₘ claims = all at seated
  cases seated with
  | idle => exact absurd same (Multiset.cons_ne_zero)
  | held => exact ⟨rfl, (Multiset.cons_inj_right _).mp same⟩
  | granted ticket =>
    have member : none ∈ some ticket ::ₘ (↑(queue.map fun waiter => some waiter.ticket) : Multiset _) :=
      same ▸ Multiset.mem_cons_self _ _
    simp at member

/-- A waiter whose turn has not come leaves the queue. -/
theorem withdraw {gate : Gate} {ticket : Nat} (seated : Seated gate queue (some ticket ::ₘ claims))
    (early : gate ≠ .granted ticket) (once : some ticket ∉ claims) :
    Seated gate (queue.filter fun waiter => waiter.ticket ≠ ticket) claims := by
  have others : ∀ all : Multiset (Option Nat), some ticket ::ₘ claims = all →
      claims = all.filter (· ≠ some ticket) := by
    rintro _ rfl
    rw [Multiset.filter_cons_of_neg _ (by simp)]
    refine (Multiset.filter_eq_self.mpr fun claim member => ?_).symm
    rintro rfl
    exact once member
  have waiting : (↑(queue.map fun waiter => some waiter.ticket) : Multiset (Option Nat)).filter
      (· ≠ some ticket) = ↑((queue.filter fun waiter => waiter.ticket ≠ ticket).map
        fun waiter => some waiter.ticket) := by
    rw [Multiset.filter_coe, List.filter_map]
    congr 3
    funext waiter
    simp
  generalize same : some ticket ::ₘ claims = all at seated
  cases seated with
  | idle => exact absurd same Multiset.cons_ne_zero
  | held =>
    rw [others _ same, Multiset.filter_cons_of_pos _ (by simp), waiting]
    exact .held _
  | granted other =>
    have apart : other ≠ ticket := fun equal => early (equal ▸ rfl)
    rw [others _ same, Multiset.filter_cons_of_pos _ (by simpa using apart), waiting]
    exact .granted other _

/-- Nobody waits at a gate that nobody uses. -/
theorem of_idle (seated : Seated .idle queue claims) : queue = [] ∧ claims = 0 := by
  cases seated
  exact ⟨rfl, rfl⟩

/-- Another waiter goes to the end of the queue. -/
theorem append {gate : Gate} (seated : Seated gate queue claims) (busy : gate ≠ .idle) (waiter : Waiter) :
    Seated gate (queue ++ [waiter]) (some waiter.ticket ::ₘ claims) := by
  have longer : ∀ claim : Option Nat, claim ::ₘ (↑((queue ++ [waiter]).map fun waiter => some waiter.ticket) :
      Multiset (Option Nat)) = some waiter.ticket ::ₘ claim ::ₘ ↑(queue.map fun waiter => some waiter.ticket) := by
    intro claim
    rw [List.map_append, List.map_singleton, Multiset.cons_coe, Multiset.cons_coe, Multiset.cons_coe,
      Multiset.coe_eq_coe]
    exact ((List.perm_append_singleton _ _).cons claim).trans (.swap _ _ _)
  cases seated with
  | idle => exact absurd rfl busy
  | held =>
    rw [← longer]
    exact .held _
  | granted ticket =>
    rw [← longer]
    exact .granted ticket _

/-- If one claim is that of a waiter whose turn has come, all others stand in the queue. -/
theorem of_granted {ticket : Nat} (seated : Seated (.granted ticket) queue (some ticket ::ₘ claims)) :
    claims = ↑(queue.map fun waiter => some waiter.ticket) := by
  generalize same : some ticket ::ₘ claims = all at seated
  cases seated with
  | granted => exact (Multiset.cons_inj_right _).mp same

end Seated

namespace Ledger

variable {contents : Contents} {registry after linked : Registry} {fresh later : Nat}
  {hold : Hold} {holds : Multiset Hold} {key : Key}

theorem entry_of_placed (ledger : Ledger contents registry fresh holds) {origin : Origin}
    (found : contents.origin? key = some origin) : ∃ entry, registry.entry? key = some entry := by
  rw [← Option.isSome_iff_exists, Option.isSome_iff_ne_none]
  intro absent
  rw [Registry.entry?, OrderedMap.get?_eq_none_iff, ledger.keys] at absent
  exact absent (List.mem_map_of_mem (f := Prod.fst) (OrderedMap.mem_of_get? found))

theorem mono (ledger : Ledger contents registry fresh holds) (le : fresh ≤ later) :
    Ledger contents registry later holds :=
  { ledger with issued := fun ticket member => (ledger.issued ticket member).trans_le le }

/-- A registry that differs in its figures only. -/
theorem same (ledger : Ledger contents registry fresh holds) (entries : after.entries = registry.entries)
    (waits : after.waits = registry.waits) : Ledger contents after fresh holds :=
  { ledger with
    keys := entries ▸ ledger.keys
    fits := fun key entry found => ledger.fits key entry (by rwa [Registry.entry?, ← entries])
    records := waits ▸ ledger.records }

/-- A claim is struck out: the entry is changed to fit the claims that remain, and the wait ends. -/
theorem strike (ledger : Ledger contents registry fresh (hold ::ₘ holds)) (change : Entry → Entry)
    (entries : after.entries = (registry.modify hold.key change).entries)
    (waits : after.waits = (registry.unlink hold.owner hold.key).waits)
    (fits : ∀ entry, registry.entry? hold.key = some entry →
      Fits contents hold.key entry (hold.ticket ::ₘ Hold.claims holds hold.key) →
        Fits contents hold.key (change entry) (Hold.claims holds hold.key)) :
    Ledger contents after fresh holds := by
  have tickets := ledger.tickets
  have fewer : Hold.tickets holds ≤ Hold.tickets (hold ::ₘ holds) :=
    Multiset.filterMap_le_filterMap _ (Multiset.le_cons_self _ _)
  refine ⟨?_, ledger.distinct, fun key entry found => ?_,
    fun other member => ledger.placed other (Multiset.mem_cons_of_mem member),
    fun other member => ledger.refers other (Multiset.mem_cons_of_mem member),
    waits ▸ ledger.records.unlink, Multiset.nodup_of_le fewer tickets,
    fun ticket member => ledger.issued ticket (Multiset.mem_of_le fewer member)⟩
  · rw [entries, Registry.modify_keys, ledger.keys]
  · rw [Registry.entry?, entries, ← Registry.entry?] at found
    by_cases here : key = hold.key
    · subst here
      rw [Registry.entry?_modify_self, Option.map_eq_some_iff] at found
      obtain ⟨old, held, rfl⟩ := found
      have before := ledger.fits _ old held
      rw [show hold = ⟨hold.owner, hold.key, hold.ticket⟩ from rfl, Hold.claims_cons_self] at before
      exact fits old held before
    · rw [Registry.entry?_modify_other _ _ _ here] at found
      have before := ledger.fits key entry found
      rwa [Hold.claims_cons_other fun same => here same.symm] at before

/-- A claim is entered: the wait is recorded and the entry is changed to fit one claim more. -/
theorem enter (ledger : Ledger contents registry fresh holds) (le : fresh ≤ later) (hold : Hold)
    (change : Entry → Entry)
    (accepted : registry.link hold.owner hold.key = .ok linked)
    (entries : after.entries = (registry.modify hold.key change).entries)
    (waits : after.waits = linked.waits)
    (placed : ∃ payload, contents.origin? hold.key = some (.deferred payload))
    (refers : ∀ owner, hold.owner = some owner → contents.Refers owner hold.key)
    (issued : ∀ ticket, hold.ticket = some ticket → fresh ≤ ticket ∧ ticket < later)
    (fits : ∀ entry, registry.entry? hold.key = some entry →
      Fits contents hold.key entry (Hold.claims holds hold.key) →
        Fits contents hold.key (change entry) (hold.ticket ::ₘ Hold.claims holds hold.key)) :
    Ledger contents after later (hold ::ₘ holds) := by
  obtain ⟨owner, target, ticket⟩ := hold
  refine ⟨?_, ledger.distinct, fun key entry found => ?_, ?_, ?_, ?_, ?_, ?_⟩
  · rw [entries, Registry.modify_keys, ledger.keys]
  · rw [Registry.entry?, entries, ← Registry.entry?] at found
    by_cases here : key = target
    · subst here
      rw [Registry.entry?_modify_self, Option.map_eq_some_iff] at found
      obtain ⟨old, held, rfl⟩ := found
      rw [Hold.claims_cons_self]
      exact fits old held (ledger.fits _ old held)
    · rw [Registry.entry?_modify_other _ _ _ here] at found
      rw [Hold.claims_cons_other fun same => here same.symm]
      exact ledger.fits key entry found
  · intro other member
    rcases Multiset.mem_cons.mp member with rfl | old
    · exact placed
    · exact ledger.placed other old
  · intro other member
    rcases Multiset.mem_cons.mp member with rfl | old
    · exact refers
    · exact ledger.refers other old
  · rw [waits]
    exact ledger.records.link ⟨owner, target, ticket⟩ accepted
  · cases ticket with
    | none => simpa using ledger.tickets
    | some ticket =>
      rw [Hold.tickets_cons_waiting, Multiset.nodup_cons]
      exact ⟨fun old => absurd (ledger.issued ticket old) (Nat.not_lt.mpr (issued ticket rfl).1),
        ledger.tickets⟩
  · intro number member
    cases ticket with
    | none => exact (ledger.issued number (by simpa using member)).trans_le le
    | some ticket =>
      rw [Hold.tickets_cons_waiting, Multiset.mem_cons] at member
      rcases member with rfl | old
      · exact (issued number rfl).2
      · exact (ledger.issued number old).trans_le le

/-- The value of an entry is made by the fetch that initializes it. -/
theorem settle {owner : Option Key} {value : Value}
    (ledger : Ledger contents registry fresh (⟨owner, key, none⟩ ::ₘ holds))
    (known : contents.valueOf [] key = some value) :
    Ledger contents ((registry.settle key ⟨key.type, value⟩).2.unlink owner key) fresh holds := by
  refine ledger.strike (fun _ => .complete ⟨key.type, value⟩)
    (Registry.unlink_entries _ _ _) (by cases owner <;> rfl) fun entry found fits => ?_
  cases fits with
  | complete _ nobody => exact absurd (Multiset.mem_cons_self _ _) nobody
  | deferred registered seated =>
    obtain ⟨_, others⟩ := seated.of_turn
    exact .complete known (by simp [others])

/-- The gate and the queue of an entry after the one with the turn has given up. -/
def passOn (queue : List Waiter) (entry : Entry) : Entry :=
  match queue with
  | [] => { entry with gate := .idle }
  | waiter :: rest => { entry with gate := .granted waiter.ticket, queue := rest }

theorem release_entries (registry : Registry) (key : Key) {entry : Entry}
    (found : registry.entry? key = some entry) :
    (registry.release key).2.entries =
        (registry.modify key (passOn entry.queue)).entries ∧
      (registry.release key).2.waits = registry.waits := by
  unfold Registry.release
  rw [found, Option.map_some, Option.getD_some]
  cases entry.queue with
  | nil => exact ⟨rfl, rfl⟩
  | cons waiter rest => exact ⟨rfl, rfl⟩

/-- The fetch that has the turn gives up and passes the turn on. -/
theorem release_of_seated {ticket : Option Nat} {owner : Option Key}
    (ledger : Ledger contents registry fresh (⟨owner, key, ticket⟩ ::ₘ holds)) {entry : Entry}
    (found : registry.entry? key = some entry) (open' : entry.value = none)
    (others : Hold.claims holds key = ↑(entry.queue.map fun waiter => some waiter.ticket)) :
    Ledger contents ((registry.release key).2.unlink owner key) fresh holds := by
  obtain ⟨entries, waits⟩ := release_entries registry key found
  refine ledger.strike (passOn entry.queue) ?_ ?_ fun other held fits => ?_
  · rw [Registry.unlink_entries, entries]
  · cases owner with
    | none => exact waits
    | some owner => simp [Registry.unlink, waits]
  · cases found.symm.trans held
    cases fits with
    | complete => cases open'
    | deferred registered seated =>
      rw [others]
      rename_i queue
      cases queue with
      | nil => exact .deferred registered .idle
      | cons waiter rest => exact .deferred registered (.granted waiter.ticket rest)

theorem release {owner : Option Key}
    (ledger : Ledger contents registry fresh (⟨owner, key, none⟩ ::ₘ holds)) :
    Ledger contents ((registry.release key).2.unlink owner key) fresh holds := by
  obtain ⟨payload, registered⟩ := ledger.placed _ (Multiset.mem_cons_self _ _)
  obtain ⟨entry, found⟩ := ledger.entry_of_placed registered
  have fits := ledger.fits key entry found
  rw [Hold.claims_cons_self] at fits
  cases fits with
  | complete _ nobody => exact absurd (Multiset.mem_cons_self _ _) nobody
  | deferred _ seated => exact ledger.release_of_seated found rfl seated.of_turn.2

/-- A fetch that waits for an entry or has its turn there gives up. -/
theorem withdraw {owner : Option Key} {ticket : Nat}
    (ledger : Ledger contents registry fresh (⟨owner, key, some ticket⟩ ::ₘ holds)) :
    Ledger contents ((registry.withdraw key ticket).2.unlink owner key) fresh holds := by
  obtain ⟨payload, registered⟩ := ledger.placed _ (Multiset.mem_cons_self _ _)
  obtain ⟨entry, found⟩ := ledger.entry_of_placed registered
  have once : some ticket ∉ Hold.claims holds key := by
    have distinct := ledger.tickets
    rw [Hold.tickets_cons_waiting, Multiset.nodup_cons] at distinct
    exact fun claimed => distinct.1 (Hold.mem_tickets_of_claims claimed)
  unfold Registry.withdraw
  rw [found, Option.any_some]
  split
  next turn =>
    have gate : entry.gate = .granted ticket := by simpa using turn
    have fits := ledger.fits key entry found
    rw [Hold.claims_cons_self] at fits
    cases fits with
    | complete => cases gate
    | deferred _ seated =>
      cases gate
      exact ledger.release_of_seated found rfl seated.of_granted
  next early =>
    have gate : entry.gate ≠ .granted ticket := by simpa using early
    refine ledger.strike (fun entry =>
      { entry with queue := entry.queue.filter fun waiter => waiter.ticket ≠ ticket })
      (Registry.unlink_entries _ _ _) (by cases owner <;> rfl) fun other held fits => ?_
    cases found.symm.trans held
    cases fits with
    | complete known nobody =>
      exact .complete known fun member => nobody (Multiset.mem_cons_of_mem member)
    | deferred registered seated => exact .deferred registered (seated.withdraw gate once)

/-- A waiter whose turn has come begins the initialization. -/
theorem beginTurn {owner : Option Key} {ticket : Nat}
    (ledger : Ledger contents registry fresh (⟨owner, key, some ticket⟩ ::ₘ holds)) {entry : Entry}
    (found : registry.entry? key = some entry) (open' : entry.value = none)
    (gate : entry.gate = .granted ticket) :
    Ledger contents (registry.beginTurn key) fresh (⟨owner, key, none⟩ ::ₘ holds) := by
  have edges : Hold.edges (⟨owner, key, none⟩ ::ₘ holds) = Hold.edges (⟨owner, key, some ticket⟩ ::ₘ holds) := by
    cases owner <;> simp
  have tickets := ledger.tickets
  have issued := ledger.issued
  rw [Hold.tickets_cons_waiting] at tickets issued
  refine ⟨?_, ledger.distinct, fun other entry' found' => ?_,
    fun hold member => ?_, fun hold member => ?_,
    ⟨ledger.records.tidy, ledger.records.acyclic, ledger.records.edges.trans edges.symm⟩, ?_, ?_⟩
  · exact (Registry.modify_keys registry key fun entry => { entry with gate := .held }).trans ledger.keys
  · have changed : Registry.entry? (registry.beginTurn key) other =
        Registry.entry? (registry.modify key fun entry => { entry with gate := .held }) other := rfl
    rw [changed] at found'
    by_cases here : other = key
    · subst here
      rw [Registry.entry?_modify_self, found, Option.map_some] at found'
      cases found'
      have fits := ledger.fits other entry found
      rw [Hold.claims_cons_self] at fits ⊢
      cases fits with
      | complete => cases open'
      | deferred registered seated =>
        cases gate
        rw [seated.of_granted]
        exact .deferred registered (.held _)
    · rw [Registry.entry?_modify_other _ _ _ here] at found'
      have fits := ledger.fits other entry' found'
      rw [Hold.claims_cons_other fun same => here same.symm] at fits ⊢
      exact fits
  · rcases Multiset.mem_cons.mp member with rfl | old
    · exact ledger.placed ⟨owner, key, some ticket⟩ (Multiset.mem_cons_self _ _)
    · exact ledger.placed hold (Multiset.mem_cons_of_mem old)
  · rcases Multiset.mem_cons.mp member with rfl | old
    · exact ledger.refers ⟨owner, key, some ticket⟩ (Multiset.mem_cons_self _ _)
    · exact ledger.refers hold (Multiset.mem_cons_of_mem old)
  · rw [Hold.tickets_cons_turn]
    exact (Multiset.nodup_cons.mp tickets).2
  · rw [Hold.tickets_cons_turn]
    exact fun number member => issued number (Multiset.mem_cons_of_mem member)

/-- The value of a complete entry is what its key means. -/
theorem get? (ledger : Ledger contents registry fresh holds) {value : Value}
    (found : registry.get? key.type key = some value) : contents.valueOf [] key = some value := by
  unfold Registry.get? at found
  simp only [Option.bind_eq_bind, Option.bind_eq_some_iff] at found
  obtain ⟨entry, present, stored, complete, typed⟩ := found
  have fits := ledger.fits key entry present
  cases fits with
  | complete known =>
    cases complete
    simp only [Registry.asType, if_pos, Except.toOption] at typed
    exact known.trans typed
  | deferred => cases complete

/-- How a fetch may begin, and what it claims. -/
inductive Arrives (contents : Contents) (registry : Registry) (fresh : Nat) (holds : Multiset Hold)
    (owner : Option Key) (key : Key) : Registry.Arrival × Registry → Prop where
  | missing (absent : contents.origin? key = none) :
      Arrives contents registry fresh holds owner key
        (.refused (.about .notRegistered key), registry)
  | found {value : Value} {after : Registry} (stored : registry.get? key.type key = some value)
      (entries : after.entries = registry.entries) (waits : after.waits = registry.waits) :
      Arrives contents registry fresh holds owner key (.found value, after)
  | cycle {waiting : Key} {chain : List Key} (made : owner = some waiting)
      (closes : registry.waits.Closes waiting key chain) :
      Arrives contents registry fresh holds owner key
        (.refused (.cycle (chain.map Key.text)), registry)
  | turn {payload : Payload} {after : Registry} (registered : contents.origin? key = some (.deferred payload))
      (open' : registry.get? key.type key = none)
      (ledger : Ledger contents after fresh (⟨owner, key, none⟩ ::ₘ holds)) :
      Arrives contents registry fresh holds owner key (.turn payload, after)
  | queued {payload : Payload} {after : Registry}
      (registered : contents.origin? key = some (.deferred payload))
      (ledger : Ledger contents after (fresh + 1) (⟨owner, key, some fresh⟩ ::ₘ holds)) :
      Arrives contents registry fresh holds owner key (.queued payload, after)

theorem link_error {owner : Option Key} {error : RegistryError}
    (refused : registry.link owner key = .error error) :
    ∃ waiting chain, owner = some waiting ∧ error = .cycle (chain.map Key.text) ∧
      registry.waits.Closes waiting key chain := by
  unfold Registry.link at refused
  split at refused
  next => cases refused
  next waiting =>
    split at refused
    next chain closed =>
      cases refused
      exact ⟨waiting, chain, rfl, rfl, WaitGraph.add_error closed⟩
    next => cases refused

theorem arrive (ledger : Ledger contents registry fresh holds) (owner : Option Key)
    (refers : ∀ other, owner = some other → contents.Refers other key) (strands : List Strand) :
    Arrives contents registry fresh holds owner key
      (registry.arrive key.type key owner ⟨fresh, strands⟩) := by
  unfold Registry.arrive
  rw [if_neg (by simp)]
  cases found : registry.entry? key with
  | none =>
    refine .missing ?_
    cases registered : contents.origin? key with
    | none => rfl
    | some origin =>
      obtain ⟨entry, present⟩ := ledger.entry_of_placed registered
      cases found.symm.trans present
  | some entry =>
    have fits := ledger.fits key entry found
    cases fits with
    | @complete value _ known nobody =>
      have stored : registry.get? key.type key = some value := by
        simp [Registry.get?, found, Entry.complete, Registry.asType, Except.toOption]
      dsimp only [Entry.complete, Registry.asType]
      rw [if_pos rfl]
      exact .found stored rfl rfl
    | @deferred payload gate queue _ registered seated =>
      have open' : registry.get? key.type key = none := by
        simp [Registry.get?, found]
      dsimp only
      cases linking : registry.link owner key with
      | error error =>
        obtain ⟨waiting, chain, made, rfl, closes⟩ := link_error linking
        exact .cycle made closes
      | ok linked =>
        have entries := Registry.link_entries linking
        cases gate with
        | idle =>
          obtain ⟨alone, nobody⟩ := seated.of_idle
          refine .turn registered open' (ledger.enter (Nat.le_refl _) ⟨owner, key, none⟩
            (fun entry => { entry with gate := .held }) linking ?_ rfl ⟨payload, registered⟩ refers
            (by simp) fun entry held fits => ?_)
          · simp [Registry.beginTurn, Registry.modify, entries]
          · cases found.symm.trans held
            rw [alone, nobody]
            exact .deferred registered (.held [])
        | held | granted =>
          refine .queued registered (ledger.enter (Nat.le_succ _) ⟨owner, key, some fresh⟩
            (fun entry => { entry with queue := entry.queue ++ [⟨fresh, strands⟩] }) linking ?_ rfl
            ⟨payload, registered⟩ refers (by simp) fun entry held fits => ?_)
          · simp [Registry.modify, entries]
          · cases found.symm.trans held
            cases fits with
            | deferred _ seated => exact .deferred registered (seated.append (by simp) ⟨fresh, strands⟩)

/-- A waiter that finds the value leaves an entry that is complete. -/
theorem leave {owner : Option Key} {ticket : Nat} {value : Value}
    (ledger : Ledger contents registry fresh (⟨owner, key, some ticket⟩ ::ₘ holds))
    (stored : registry.get? key.type key = some value) :
    Ledger contents (registry.unlink owner key) fresh holds := by
  refine ledger.strike id ?_ rfl fun entry found fits => ?_
  · rw [Registry.unlink_entries]
    simp [Registry.modify]
  · cases fits with
    | complete known nobody =>
      exact .complete known fun member => nobody (Multiset.mem_cons_of_mem member)
    | deferred => simp [Registry.get?, found] at stored

/-- How a waiter may go on when it looks again, and what it then claims. -/
inductive Resumes (contents : Contents) (registry : Registry) (fresh : Nat) (holds : Multiset Hold)
    (owner : Option Key) (key : Key) : Registry.Resumption × Registry → Prop where
  | waiting : Resumes contents registry fresh holds owner key (.waiting, registry)
  | found {value : Value} (stored : registry.get? key.type key = some value)
      (ledger : Ledger contents (registry.unlink owner key) fresh holds) :
      Resumes contents registry fresh holds owner key (.found value, registry)
  | turn {after : Registry} (open' : registry.get? key.type key = none)
      (ledger : Ledger contents after fresh (⟨owner, key, none⟩ ::ₘ holds)) :
      Resumes contents registry fresh holds owner key (.turn, after)

theorem resume {owner : Option Key} {ticket : Nat}
    (ledger : Ledger contents registry fresh (⟨owner, key, some ticket⟩ ::ₘ holds)) :
    Resumes contents registry fresh holds owner key (registry.resume key.type key ticket) := by
  obtain ⟨payload, registered⟩ := ledger.placed _ (Multiset.mem_cons_self _ _)
  obtain ⟨entry, found⟩ := ledger.entry_of_placed registered
  unfold Registry.resume
  rw [found]
  have fits := ledger.fits key entry found
  cases fits with
  | @complete value _ known nobody =>
    have stored : registry.get? key.type key = some value := by
      simp [Registry.get?, found, Entry.complete, Registry.asType, Except.toOption]
    dsimp only [Entry.complete, Registry.asType]
    rw [if_pos rfl]
    exact .found stored (ledger.leave stored)
  | @deferred payload gate queue _ registered seated =>
    dsimp only
    split
    next granted =>
      exact .turn (by simp [Registry.get?, found]) (ledger.beginTurn found rfl granted)
    next => exact .waiting

theorem register_ok {entry : Entry} (accepted : registry.register key entry = .ok after) :
    registry.entry? key = none ∧ after = { registry with entries := registry.entries ++ [(key, entry)] } := by
  unfold Registry.register Registry.contains at accepted
  split at accepted
  next => cases accepted
  next free => exact ⟨by simpa using free, (Except.ok.inj accepted).symm⟩

/-- A new entry fits in without any claim. -/
theorem register {origin : Origin} (ledger : Ledger contents registry fresh holds)
    (accepted : registry.register key (origin.entry key) = .ok after) :
    Ledger (contents ++ [(key, origin)]) after fresh holds := by
  obtain ⟨free, rfl⟩ := register_ok accepted
  have wider := Contents.extends_append contents [(key, origin)]
  have absent : key ∉ contents.map (·.1) := by
    rw [← ledger.keys]
    exact OrderedMap.get?_eq_none_iff.mp free
  have unclaimed : Hold.claims holds key = 0 := by
    rw [Hold.claims, Multiset.map_eq_zero, Multiset.filter_eq_nil]
    rintro hold member rfl
    obtain ⟨payload, registered⟩ := ledger.placed hold member
    exact absent (List.mem_map_of_mem (f := Prod.fst) (OrderedMap.mem_of_get? registered))
  refine ⟨?_, ?_, fun other entry found => ?_, fun hold member => ?_, fun hold member owner made => ?_,
    ledger.records, ledger.tickets, ledger.issued⟩
  · simp [ledger.keys]
  · rw [List.map_append, List.nodup_append]
    refine ⟨ledger.distinct, by simp, fun first inside second last same => absent ?_⟩
    have named : second = key := by simpa using last
    rwa [← named, ← same]
  · rw [Registry.entry?, OrderedMap.get?_append] at found
    cases old : OrderedMap.get? registry.entries other with
    | some entry' =>
      rw [old] at found
      cases found
      cases ledger.fits other _ old with
      | complete known nobody => exact .complete (wider.valueOf other _ known) nobody
      | deferred registered seated => exact .deferred (wider other _ registered) seated
    | none =>
      rw [old, Option.none_or, OrderedMap.get?_cons] at found
      split at found
      next same =>
        cases same
        cases found
        have registered : Contents.origin? (contents ++ [(key, origin)]) key = some origin := by
          rw [Contents.origin?, OrderedMap.get?_append, OrderedMap.get?_eq_none_iff.mpr absent,
            Option.none_or, OrderedMap.get?_cons, if_pos rfl]
        rw [unclaimed]
        cases origin with
        | value value => exact .complete (Contents.valueOf_of_value registered) (by simp)
        | deferred payload => exact .deferred registered .idle
      next => simp at found
  · obtain ⟨payload, registered⟩ := ledger.placed hold member
    exact ⟨payload, wider _ _ registered⟩
  · exact wider.refers (ledger.refers hold member owner made)

end Ledger

end Blueprint
