import Blueprint.Proofs.System.Alert
import Blueprint.Proofs.System.Flows
import Blueprint.Proofs.Task.Nesting
import Blueprint.Proofs.Task.Waits
/-! Nobody waits in a circle. What is waited for and initialized on behalf of an entry leads from entry to entry
without ever coming back, so initializations lie in one another only so deep, and a system in which
everybody stands in a queue has nobody waiting for anything that flows. -/

namespace Blueprint

section Acyclic

variable {relation : Key → Key → Prop}

/-- Without circles, a chain is no longer than what it runs through. -/
theorem chain_length_le (acyclic : ∀ key, ¬ Relation.TransGen relation key key) {keys bound : List Key}
    (linked : keys.IsChain (Relation.TransGen relation)) (among : ∀ key ∈ keys, key ∈ bound) :
    keys.length ≤ bound.length := by
  have distinct : keys.Nodup := by
    refine (List.isChain_iff_pairwise.mp linked).imp fun {first second} way same => ?_
    subst same
    exact acyclic first way
  exact (List.subperm_of_subset distinct among).length_le

/-- Without circles, whatever always leads on to more of its kind is nowhere. -/
theorem nowhere_of_leads (acyclic : ∀ key, ¬ Relation.TransGen relation key key) {holds : Key → Prop}
    (bound : List Key) (among : ∀ key, holds key → key ∈ bound)
    (leads : ∀ key, holds key → ∃ next, Relation.TransGen relation key next ∧ holds next) (key : Key) :
    ¬ holds key := by
  have long : ∀ (length : Nat) (first : Key), holds first → ∃ rest : List Key, rest.length = length ∧
      (first :: rest).IsChain (Relation.TransGen relation) ∧ ∀ other ∈ first :: rest, holds other := by
    intro length
    induction length with
    | zero => exact fun first known => ⟨[], rfl, List.isChain_singleton first, by simpa using known⟩
    | succ length ih =>
      intro first known
      obtain ⟨next, way, later⟩ := leads first known
      obtain ⟨rest, size, linked, each⟩ := ih next later
      refine ⟨next :: rest, by rw [List.length_cons, size], List.isChain_cons_cons.mpr ⟨way, linked⟩, ?_⟩
      exact List.forall_mem_cons.mpr ⟨known, each⟩
  intro known
  obtain ⟨rest, size, linked, each⟩ := long bound.length key known
  have short := chain_length_le acyclic linked fun other member => among other (each other member)
  rw [List.length_cons, size] at short
  exact Nat.not_succ_le_self _ short

end Acyclic

/-- The keys of deferred entries. -/
def Contents.deferred (contents : Contents) : List Key :=
  contents.filterMap fun item =>
    match item.2 with
    | .deferred _ => some item.1
    | .value _ => none

theorem Contents.mem_deferred {contents : Contents} {key : Key} {payload : Payload}
    (registered : contents.origin? key = some (.deferred payload)) : key ∈ contents.deferred :=
  List.mem_filterMap.mpr ⟨(key, .deferred payload), OrderedMap.mem_of_get? registered, rfl⟩

namespace System

variable {system : System}

/-- On behalf of the first entry, some operation waits for the second one or initializes it. -/
def Awaits (system : System) (first second : Key) : Prop :=
  ∃ hold ∈ system.holds, hold.owner = some first ∧ hold.key = second

theorem awaits_of_waiting {process : Process} (member : process ∈ system.processes) {owner : Key} {fetch : Fetch}
    {ticket : Nat} (held : (some owner, .waiting fetch ticket) ∈ process.phase.task.stakes none) :
    system.Awaits owner fetch.key :=
  ⟨⟨some owner, fetch.key, some ticket⟩, mem_holds.mpr ⟨process, member, _, held, rfl⟩, rfl, rfl⟩

theorem awaits_of_turn {process : Process} (member : process ∈ system.processes) {owner : Key} {fetch : Fetch}
    (held : (some owner, .turn fetch) ∈ process.phase.task.stakes none) : system.Awaits owner fetch.key :=
  ⟨⟨some owner, fetch.key, none⟩, mem_holds.mpr ⟨process, member, _, held, rfl⟩, rfl, rfl⟩

theorem Orderly.refers (orderly : system.Orderly) {first second : Key} (awaits : system.Awaits first second) :
    system.registered.Refers first second := by
  obtain ⟨hold, member, owner, rfl⟩ := awaits
  exact orderly.ledger.refers hold member first owner

/-- No entry waits for itself, directly or through others. -/
theorem Orderly.acyclic (orderly : system.Orderly) (key : Key) :
    ¬ Relation.TransGen system.Awaits key key := by
  have records := orderly.ledger.records
  have edges : ∀ first second, system.Awaits first second → system.world.registry.waits.Edge first second :=
    fun first second awaits => by
      rw [← WaitGraph.mem_bag records.tidy.distinct, records.edges]
      exact Hold.mem_edges.mpr awaits
  exact fun circle => records.acyclic key (Relation.TransGen.mono edges _ _ circle)

theorem Orderly.placed (orderly : system.Orderly) {hold : Hold} (member : hold ∈ system.holds) :
    hold.key ∈ system.registered.deferred := by
  obtain ⟨payload, registered⟩ := orderly.ledger.placed hold member
  exact Contents.mem_deferred registered

/-- Initializations never lie deeper in one another than there are deferred entries. -/
theorem Orderly.nesting_le (orderly : system.Orderly) {process : Process} (member : process ∈ system.processes) :
    process.phase.task.nesting ≤ system.registered.deferred.length := by
  obtain ⟨keys, long, nests⟩ := process.phase.task.nested none
  have linked : ∀ (keys : List Key) (owner : Key),
      (process.phase.task.stakes none).Nests (some owner) keys → (owner :: keys).IsChain system.Awaits := by
    intro keys
    induction keys with
    | nil => exact fun owner _ => List.isChain_singleton owner
    | cons key rest ih =>
      rintro owner ⟨⟨fetch, held, rfl⟩, later⟩
      exact List.isChain_cons_cons.mpr ⟨awaits_of_turn member held, ih _ later⟩
  have among : ∀ (keys : List Key) (owner : Option Key),
      (process.phase.task.stakes none).Nests owner keys → ∀ key ∈ keys, key ∈ system.registered.deferred := by
    intro keys
    induction keys with
    | nil => simp
    | cons key rest ih =>
      rintro owner ⟨⟨fetch, held, rfl⟩, later⟩
      refine List.forall_mem_cons.mpr ⟨?_, ih _ later⟩
      exact orderly.placed (mem_holds.mpr ⟨process, member, _, held, rfl⟩)
  rw [← long]
  cases keys with
  | nil => exact Nat.zero_le _
  | cons key rest =>
    have whole := (linked rest key nests.2).imp fun _ _ => Relation.TransGen.single
    exact chain_length_le orderly.acyclic whole (among _ none nests)

end System

/-- A task to which that of an operation amounts, of which every branch stands in a queue. All that it is about
to do meets a condition. -/
structure Process.Stands (demand : Demand) (contents : Contents) (world : World) (id : Nat) (process : Process)
    (task : Task) : Prop where
  stakes : task.stakes none = process.phase.task.stakes none
  sound : task.Sound contents.Meaning
  every : task.Every demand none
  waits : ∀ mark ∈ task.marks [.operation id], mark.2.Waits
  seated : ∀ strands key ticket, (strands, .seat key ticket) ∈ task.marks [.operation id] →
    ⟨ticket, strands⟩ ∈ world.queue key

namespace Process.Stands

variable {demand : Demand} {contents : Contents} {world : World} {id : Nat} {process : Process} {task : Task}

/-- Who waits for an entry stands in its queue. -/
theorem queued (stands : process.Stands demand contents world id task) {owner : Option Key} {fetch : Fetch}
    {ticket : Nat} (held : (owner, .waiting fetch ticket) ∈ process.phase.task.stakes none) :
    ∃ waiter ∈ world.queue fetch.key, waiter.ticket = ticket := by
  rw [← stands.stakes] at held
  obtain ⟨strands, seat⟩ := Task.seat_of_waiting stands.sound held
  exact ⟨_, stands.seated strands fetch.key ticket seat, rfl⟩

end Process.Stands

namespace System

variable {system : System} {demand : Contents → Call → Demand} {alive : Key → Prop}

/-- Entries that refer only to one another, and on behalf of which nothing is done that never goes on. -/
structure Living (demand : Contents → Call → Demand) (system : System) (alive : Key → Prop) : Prop where
  closed : ∀ first second, alive first → system.registered.Refers first second → alive second
  goes : ∀ process ∈ system.processes, ∀ key, alive key →
    ¬ demand system.registered process.call (some key) .forever

/-- One of some entries, for which somebody waits. -/
def Wanted (system : System) (alive : Key → Prop) (key : Key) : Prop :=
  alive key ∧ ∃ hold ∈ system.holds, hold.key = key ∧ hold.ticket ≠ none

/-- The system stands: every operation claims nothing, or each of its branches stands in a queue. -/
def Stands (demand : Contents → Call → Demand) (system : System) : Prop :=
  ∀ (id : Nat) (process : Process), system.processes[id]? = some process →
    process.phase.task.stakes none = 0 ∨
      ∃ task, process.Stands (demand system.registered process.call) system.registered system.world id task

theorem Stands.of_claim (stands : system.Stands demand) {process : Process} (member : process ∈ system.processes)
    {stake : Option Key × Stake} (held : stake ∈ process.phase.task.stakes none) :
    ∃ id task, process.Stands (demand system.registered process.call) system.registered system.world id task := by
  obtain ⟨id, present⟩ := List.mem_iff_getElem?.mp member
  rcases stands id process present with nothing | standing
  · rw [nothing] at held
    exact absurd held (Multiset.notMem_zero _)
  · exact ⟨id, standing⟩

/-- In a system that stands, the entries that are waited for are being initialized. -/
theorem Stands.turn (stands : system.Stands demand) (orderly : system.Orderly) {hold : Hold}
    (member : hold ∈ system.holds) (waits : hold.ticket ≠ none) : ∃ other ∈ system.holds, other.key = hold.key ∧ other.ticket = none := by
  have seated : ∀ other ∈ system.holds, ∀ ticket, other.ticket = some ticket →
      ∃ waiter ∈ system.world.queue other.key, waiter.ticket = ticket := by
    intro other inside ticket same
    obtain ⟨process, listed, ⟨owner, stake⟩, held, claims⟩ := mem_holds.mp inside
    obtain ⟨id, task, standing⟩ := stands.of_claim listed held
    cases stake with
    | pending key anchor => cases claims
    | turn fetch =>
      cases claims
      cases same
    | waiting fetch number =>
      cases claims
      cases same
      exact standing.queued held
  obtain ⟨ticket, same⟩ := Option.ne_none_iff_exists'.mp waits
  obtain ⟨waiter, queued, _⟩ := seated hold member ticket same
  obtain ⟨payload, registered⟩ := orderly.ledger.placed hold member
  obtain ⟨entry, found⟩ := orderly.ledger.entry_of_placed registered
  have line : system.world.queue hold.key = entry.queue := by
    rw [World.queue, Registry.queue, found]
    rfl
  have fits := orderly.ledger.fits hold.key entry found
  generalize every : Hold.claims system.holds hold.key = claims at fits
  have claimed : ∀ claim ∈ claims, ∃ other ∈ system.holds, other.key = hold.key ∧ other.ticket = claim := by
    intro claim inside
    rw [← every] at inside
    obtain ⟨other, listed, equal⟩ := Multiset.mem_map.mp inside
    exact ⟨other, (Multiset.mem_filter.mp listed).1, (Multiset.mem_filter.mp listed).2, equal⟩
  cases fits with
  | complete =>
    rw [line] at queued
    cases queued
  | deferred _ sits =>
    cases sits with
    | idle =>
      rw [line] at queued
      cases queued
    | held queue => exact claimed none (Multiset.mem_cons_self _ _)
    | granted turn queue =>
      -- whose turn has come has left the queue, so it would hold two claims with one ticket
      obtain ⟨other, listed, same', named⟩ := claimed (some turn) (Multiset.mem_cons_self _ _)
      obtain ⟨again, twice, equal⟩ := seated other listed turn named
      rw [same', line] at twice
      obtain ⟨rest, split⟩ := Multiset.exists_cons_of_mem listed
      have distinct := orderly.ledger.tickets
      obtain ⟨owner, key, number⟩ := other
      cases same'
      cases named
      rw [split, Hold.tickets_cons_waiting, Multiset.nodup_cons] at distinct
      rw [split, Hold.claims_cons_self, Multiset.cons_inj_right] at every
      have claim : some turn ∈ Hold.claims rest hold.key := by
        rw [every]
        exact Multiset.mem_coe.mpr (List.mem_map.mpr ⟨again, twice, by rw [equal]⟩)
      exact absurd (Hold.mem_tickets_of_claims claim) distinct.1

/-- In a system that stands, an entry on whose behalf all goes on is waited for only on the way to another one. -/
theorem Stands.leads (stands : system.Stands demand) (orderly : system.Orderly) (living : system.Living demand alive)
    {key : Key} (wanted : system.Wanted alive key) :
    ∃ next, Relation.TransGen system.Awaits key next ∧ system.Wanted alive next := by
  obtain ⟨known, hold, member, rfl, waits⟩ := wanted
  obtain ⟨other, inside, same, turn⟩ := stands.turn orderly member waits
  obtain ⟨process, listed, ⟨owner, stake⟩, held, claims⟩ := mem_holds.mp inside
  obtain ⟨id, task, standing⟩ := stands.of_claim listed held
  have reached : ∀ last, Relation.ReflTransGen system.Awaits hold.key last → alive last := by
    intro last way
    induction way with
    | refl => exact known
    | tail _ awaits ih => exact living.closed _ _ ih (orderly.refers awaits)
  cases stake with
  | pending => cases claims
  | waiting fetch ticket =>
    cases claims
    cases turn
  | turn fetch =>
    cases claims
    let free : Option Key → Prop := fun owner =>
      ∃ last, owner = some last ∧ Relation.ReflTransGen system.Awaits hold.key last
    have goes : ∀ owner, free owner → ¬ demand system.registered process.call owner .forever := by
      rintro _ ⟨last, rfl, way⟩
      exact living.goes process listed last (reached last way)
    rw [← standing.stakes] at held
    obtain ⟨_, next, ticket, ⟨last, rfl, way⟩, found⟩ := Task.waiting_of_turn standing.sound standing.every goes
      (fun outer inner mine ⟨last, own, way⟩ => by
        subst own
        rw [standing.stakes] at mine
        exact ⟨inner.key, rfl, way.tail (awaits_of_turn listed mine)⟩) standing.waits held
      ⟨fetch.key, rfl, by rw [← same]⟩
    rw [standing.stakes] at found
    have awaits := awaits_of_waiting listed found
    exact ⟨next.key, .tail' way awaits, reached _ (way.tail awaits), ⟨some last, next.key, some ticket⟩,
      mem_holds.mpr ⟨process, listed, _, found, rfl⟩, rfl, Option.some_ne_none ticket⟩

theorem Stands.not_wanted (stands : system.Stands demand) (orderly : system.Orderly)
    (living : system.Living demand alive) (key : Key) : ¬ system.Wanted alive key := by
  refine nowhere_of_leads orderly.acyclic system.registered.deferred ?_
    (fun key wanted => stands.leads orderly living wanted) key
  rintro _ ⟨_, hold, member, rfl, _⟩
  exact orderly.placed member

/-- In a system that stands, no operation has anything to do for a call that goes on itself and refers only to
entries on whose behalf all goes on. -/
theorem Stands.not_living (stands : system.Stands demand) (orderly : system.Orderly)
    (living : system.Living demand alive) {id : Nat} {process : Process} (member : process ∈ system.processes)
    (own : ¬ demand system.registered process.call none .forever) (rooted : ∀ key ∈ process.call.references, alive key)
    (task : Task) :
    ¬ process.Stands (demand system.registered process.call) system.registered system.world id task := by
  intro standing
  have lawful := (orderly.each process member).lawful
  let free : Option Key → Prop := fun owner => owner = none ∨ ∃ key, owner = some key ∧ alive key
  have goes : ∀ owner, free owner → ¬ demand system.registered process.call owner .forever := by
    rintro _ (rfl | ⟨key, rfl, known⟩)
    · exact own
    · exact living.goes process member key known
  have reaches : ∀ owner key, free owner → (∃ hold ∈ system.holds, hold.owner = owner ∧ hold.key = key) →
      (owner = none → key ∈ process.call.references) → alive key := by
    rintro _ key (rfl | ⟨last, rfl, known⟩) awaits outer
    · exact rooted key (outer rfl)
    · exact living.closed last key known (orderly.refers awaits)
  have claimed : ∀ owner stake hold, (owner, stake) ∈ task.stakes none → stake.hold? owner = some hold →
      hold ∈ system.holds := by
    intro owner stake hold own claims
    rw [standing.stakes] at own
    exact mem_holds.mpr ⟨process, member, _, own, claims⟩
  have outer : ∀ stake, (none, stake) ∈ task.stakes none → stake.key ∈ process.call.references := by
    intro stake own
    rw [standing.stakes] at own
    exact (lawful _ own).outer rfl
  obtain ⟨owner, fetch, ticket, known, found⟩ := Task.waiting_of_free (.inl rfl) standing.every goes
    (fun other inner mine known => .inr ⟨inner.key, rfl,
      reaches other inner.key known ⟨_, claimed other _ _ mine rfl, rfl, rfl⟩ fun none => by
        subst none
        exact outer _ mine⟩) standing.waits
  have alive := reaches owner fetch.key known ⟨_, claimed owner _ _ found rfl, rfl, rfl⟩ fun none => by
    subst none
    exact outer _ found
  exact stands.not_wanted orderly living fetch.key
    ⟨alive, _, claimed owner _ _ found rfl, rfl, Option.some_ne_none ticket⟩

end System

end Blueprint
