import Mathlib.Algebra.Order.BigOperators.Group.Multiset
import Mathlib.Algebra.Order.Group.Nat
import Blueprint.Proofs.Desk
/-! The figures of a registry account for every fetch made on it. A fetch that finds its entry complete is a hit, one
whose initializer begins is an initialization, and no fetch is both or either of them twice. -/

namespace Blueprint

namespace Standing

/-- How many hits a fetch makes. -/
def hits (standing : Standing) : Nat := if standing = .ended .hit then 1 else 0

/-- How many initializations. -/
def initializations : Standing → Nat
  | .initializing | .ended .completed | .ended .failed | .ended .cancelled => 1
  | .waiting | .ended .hit | .ended (.refused _) | .ended .answered | .ended .withdrawn => 0

end Standing

namespace Visit

/-- The fetch is not over. -/
def Open (visit : Visit) : Prop := visit.standing = .waiting ∨ visit.standing = .initializing

/-- The fetch has raised the figures as it should have where it stands. -/
def Fair (visit : Visit) : Prop :=
  visit.hits = visit.standing.hits ∧ visit.initializations = visit.standing.initializations

/-- The fetch initializes an entry. -/
abbrev Initializes (key : Key) (visit : Visit) : Prop := visit.key = key ∧ visit.standing = .initializing

end Visit

namespace Desk

/-- The fetches that stand somewhere. -/
def standing (desk : Desk) (standing : Standing) : Nat := desk.visits.countP fun visit => visit.standing = standing

/-- The deferred entries that are complete. -/
def completions (desk : Desk) : Nat := desk.deferred.countP fun key => desk.registry.complete key

/-- What an entry looks like: values are of the type of their key, and where there is none yet a payload was
deferred. -/
def Fits (desk : Desk) (key : Key) : Option Stored × Option Payload → Prop
  | (some stored, _) => stored.type = key.type
  | (none, payload) => key ∈ desk.deferred ∧ payload.isSome = true

/-- A desk in order: its figures say what its fetches say. -/
structure Sound (desk : Desk) : Prop where
  distinct : desk.deferred.Nodup
  known : ∀ key ∈ desk.deferred, (desk.registry.kept? key).isSome = true
  fits : ∀ key kept, desk.registry.kept? key = some kept → desk.Fits key kept
  typed : ∀ visit ∈ desk.visits, visit.Open → visit.type = visit.key.type
  met : ∀ visit ∈ desk.visits, visit.standing = .ended .hit ↔ visit.met = true ∧ visit.type = visit.key.type
  /-- nobody initializes an entry but the one who holds its gate -/
  seated : ∀ key, desk.visits.countP (Visit.Initializes key) ≤ if desk.registry.busy key then 1 else 0
  fair : ∀ visit ∈ desk.visits, visit.Fair
  hits : desk.registry.hits = (desk.visits.map Visit.hits).sum
  initializations : desk.registry.initializations = (desk.visits.map Visit.initializations).sum
  completions : desk.completions = desk.standing (.ended .completed)

/-- Where a fetch comes from that moves: from the others, or from outside. -/
inductive Stems (visit : Visit) : Multiset Visit → Prop where
  | known : Stems visit {visit}
  | new (waiting : visit.standing = .waiting) (hits : visit.hits = 0) (initializations : visit.initializations = 0) :
    Stems visit 0

namespace Stems

variable {visit : Visit} {old : Multiset Visit}

theorem hits (stems : Stems visit old) : (old.map Visit.hits).sum = visit.hits := by
  cases stems with
  | known => rw [Multiset.map_singleton, Multiset.sum_singleton]
  | new waiting hits initializations => exact hits.symm

theorem initializations (stems : Stems visit old) : (old.map Visit.initializations).sum = visit.initializations := by
  cases stems with
  | known => rw [Multiset.map_singleton, Multiset.sum_singleton]
  | new waiting hits initializations => exact initializations.symm

theorem countP (stems : Stems visit old) (standing : Standing) (apart : standing ≠ .waiting) (of : Visit → Prop)
    [DecidablePred of] : (old.countP fun other => of other ∧ other.standing = standing) =
      if of visit ∧ visit.standing = standing then 1 else 0 := by
  cases stems with
  | known => rw [← Multiset.cons_zero, Multiset.countP_cons, Multiset.countP_zero, Nat.zero_add]
  | new waiting hits initializations =>
    have never : ¬ (of visit ∧ visit.standing = standing) := fun both => apart (both.2.symm.trans waiting)
    rw [Multiset.countP_zero, if_neg never]

theorem fair (stems : Stems visit old) (all : ∀ other ∈ old, other.Fair) : visit.Fair := by
  cases stems with
  | known => exact all visit (Multiset.mem_singleton_self visit)
  | new waiting hits initializations =>
    rw [Visit.Fair, waiting, hits, initializations]
    exact ⟨rfl, rfl⟩

end Stems

theorem initial_sound : initial.Sound where
  distinct := List.nodup_nil
  known _ member := absurd member List.not_mem_nil
  fits _ _ found := nomatch found
  typed _ member := absurd member (Multiset.notMem_zero _)
  met _ member := absurd member (Multiset.notMem_zero _)
  seated _ := Nat.zero_le _
  fair _ member := absurd member (Multiset.notMem_zero _)
  hits := rfl
  initializations := rfl
  completions := rfl

/-- Whoever else may be initializing the entry of a fetch, its gate has room for them afterwards as it had before. -/
def Rooms (desk : Desk) (visit : Visit) (standing : Standing) (registry : Registry) : Prop :=
  ∀ others, others + (if visit.standing = .initializing then 1 else 0) ≤
      (if desk.registry.busy visit.key then 1 else 0) →
    others + (if standing = .initializing then 1 else 0) ≤ if registry.busy visit.key then 1 else 0

/-- A fetch may move to a standing while the registry goes over into another state. -/
structure Passes (desk : Desk) (visit : Visit) (standing : Standing) (registry : Registry) : Prop where
  unfinished : visit.Open
  typed : standing = .waiting ∨ standing = .initializing → visit.type = visit.key.type
  met : standing = .ended .hit ↔ visit.met = true ∧ visit.type = visit.key.type
  apart : ∀ other, other ≠ visit.key → registry.busy other = desk.registry.busy other
  rooms : desk.Rooms visit standing registry
  hits : registry.hits = desk.registry.hits + standing.hits
  starts : ∃ starts, registry.initializations = desk.registry.initializations + starts ∧
    standing.initializations = visit.standing.initializations + starts

namespace Sound

variable {desk next : Desk} {visit : Visit} {old rest : Multiset Visit} {standing : Standing} {registry : Registry}

section Put

variable (sound : desk.Sound) (stems : Stems visit old) (present : desk.visits = old + rest)
  (passes : desk.Passes visit standing registry)

include sound stems present passes

theorem put_fair : (desk.moved registry visit standing).Fair := by
  have before : ∀ other ∈ old, other.Fair :=
    fun other member => sound.fair other (present ▸ Multiset.mem_add.mpr (.inl member))
  have shares := stems.fair before
  have none : visit.standing.hits = 0 := by
    rcases passes.unfinished with same | same <;> simp [same, Standing.hits]
  obtain ⟨starts, counted, fair⟩ := passes.starts
  constructor
  · show visit.hits + (registry.hits - desk.registry.hits) = standing.hits
    rw [shares.1, none, passes.hits]
    omega
  · show visit.initializations + (registry.initializations - desk.registry.initializations) = standing.initializations
    rw [shares.2, counted, fair]
    omega

theorem put_seated (key : Key) : (desk.put registry visit standing rest).visits.countP (Visit.Initializes key) ≤
    if registry.busy key then 1 else 0 := by
  have room := sound.seated key
  rw [present, Multiset.countP_add, Nat.add_comm, stems.countP .initializing nofun fun other => other.key = key] at room
  rw [Desk.put, Multiset.countP_cons]
  by_cases same : visit.key = key
  · subst same
    simp only [Visit.Initializes, moved, true_and] at room ⊢
    exact passes.rooms _ room
  · simp only [Visit.Initializes, moved, same, false_and, if_false, Nat.add_zero] at room ⊢
    rwa [passes.apart key (Ne.symm same)]

theorem put_hits : registry.hits = ((desk.put registry visit standing rest).visits.map Visit.hits).sum := by
  have sum := sound.hits
  rw [present, Multiset.map_add, Multiset.sum_add, stems.hits] at sum
  have mine : (desk.moved registry visit standing).hits = visit.hits + (registry.hits - desk.registry.hits) := rfl
  have more := passes.hits
  rw [Desk.put, Multiset.map_cons, Multiset.sum_cons, mine]
  omega

theorem put_initializations : registry.initializations =
    ((desk.put registry visit standing rest).visits.map Visit.initializations).sum := by
  have sum := sound.initializations
  rw [present, Multiset.map_add, Multiset.sum_add, stems.initializations] at sum
  have mine : (desk.moved registry visit standing).initializations =
      visit.initializations + (registry.initializations - desk.registry.initializations) := rfl
  obtain ⟨starts, more, _⟩ := passes.starts
  rw [Desk.put, Multiset.map_cons, Multiset.sum_cons, mine]
  omega

theorem put_completions : (desk.put registry visit standing rest).standing (.ended .completed) =
    desk.completions + if standing = .ended .completed then 1 else 0 := by
  have done := sound.completions
  have before := stems.countP (.ended .completed) nofun fun _ => True
  have alive : visit.standing ≠ .ended .completed := by
    rcases passes.unfinished with same | same <;> rw [same] <;> exact nofun
  simp only [true_and] at before
  rw [Desk.standing, present, Multiset.countP_add, before, if_neg alive, Nat.zero_add] at done
  rw [Desk.standing, Desk.put, Multiset.countP_cons, done]
  rfl

/-- One fetch moves, and the figures follow. -/
theorem put (known : ∀ key, (desk.registry.kept? key).isSome = true → (registry.kept? key).isSome = true)
    (fits : ∀ key kept, registry.kept? key = some kept → desk.Fits key kept)
    (completions : (desk.deferred.countP fun key => registry.complete key) =
      desk.completions + if standing = .ended .completed then 1 else 0) :
    (desk.put registry visit standing rest).Sound := by
  have others : ∀ other ∈ rest, other ∈ desk.visits :=
    fun other member => present ▸ Multiset.mem_add.mpr (.inr member)
  exact ⟨sound.distinct, fun key member => known key (sound.known key member), fits,
    Multiset.forall_mem_cons.mpr ⟨passes.typed, fun other member => sound.typed other (others other member)⟩,
    Multiset.forall_mem_cons.mpr ⟨passes.met, fun other member => sound.met other (others other member)⟩,
    sound.put_seated stems present passes,
    Multiset.forall_mem_cons.mpr
      ⟨sound.put_fair stems present passes, fun other member => sound.fair other (others other member)⟩,
    sound.put_hits stems present passes, sound.put_initializations stems present passes,
    completions.trans (sound.put_completions stems present passes).symm⟩

/-- One fetch moves while all entries keep what they have. -/
theorem stirred (kept : ∀ key, registry.kept? key = desk.registry.kept? key)
    (incomplete : standing ≠ .ended .completed) : (desk.put registry visit standing rest).Sound := by
  refine sound.put stems present passes (fun key => ?_) (fun key value found => ?_) ?_
  · rw [kept key]
    exact id
  · exact sound.fits key value ((kept key).symm.trans found)
  · rw [if_neg incomplete]
    exact List.countP_congr fun key _ => by rw [Registry.complete_congr (kept key)]

end Put

/-- A fetch that is not over goes on while all entries keep what they have. -/
theorem goes_on (sound : desk.Sound) (present : desk.visits = visit ::ₘ rest) (unfinished : visit.Open)
    (stirs : desk.registry.Stirs visit.key registry) (rooms : desk.Rooms visit standing registry)
    (starts : Nat) (counted : registry.initializations = desk.registry.initializations + starts)
    (fair : standing.initializations = visit.standing.initializations + starts)
    (notHit : standing ≠ .ended .hit) (incomplete : standing ≠ .ended .completed) :
    (desk.put registry visit standing rest).Sound := by
  have member : visit ∈ desk.visits := present ▸ Multiset.mem_cons_self visit rest
  have alive : visit.standing ≠ .ended .hit := by
    rcases unfinished with same | same <;> rw [same] <;> exact nofun
  have never := (sound.met visit member).not.mp alive
  have hits : registry.hits = desk.registry.hits + standing.hits := by
    rw [stirs.hits, Standing.hits, if_neg notHit, Nat.add_zero]
  have passes : desk.Passes visit standing registry :=
    ⟨unfinished, fun _ => sound.typed visit member unfinished,
      ⟨fun hit => absurd hit notHit, fun both => absurd both never⟩, stirs.busy, rooms, hits, starts, counted, fair⟩
  exact sound.stirred .known present passes stirs.kept incomplete

/-- A fetch arrives. -/
theorem arrive {ticket : Nat} {key : Key} {type : TypeName} {owner : Option Key} {strands : List Strand}
    {arrival : Registry.Arrival} (sound : desk.Sound)
    (arrives : desk.registry.arrive type key owner ⟨ticket, strands⟩ = (arrival, registry)) :
    (desk.put registry ⟨ticket, key, type, owner, desk.registry.complete key, .waiting, 0, 0⟩ arrival.standing
      desk.visits).Sound := by
  have arrived := Registry.arrive_arrives (fun stored payload found => sound.fits key _ found) arrives
  have counted := desk.registry.arrive_initializations type key owner ⟨ticket, strands⟩
  rw [arrives] at counted
  have fair : arrival.standing.initializations = Standing.waiting.initializations + arrival.starts := by
    cases arrival <;> rfl
  have passes : desk.Passes ⟨ticket, key, type, owner, desk.registry.complete key, .waiting, 0, 0⟩ arrival.standing
      registry :=
    ⟨.inl rfl, arrived.typed, arrived.met, fun _ apart => arrived.busy apart, fun _ before => arrived.seated before,
      arrived.hits, arrival.starts, counted, fair⟩
  refine sound.stirred (.new rfl rfl rfl) (zero_add _).symm passes arrived.kept ?_
  cases arrival <;> exact nofun

section Registered

variable {key : Key} {origin : Origin} (sound : desk.Sound)
  (accepted : desk.registry.register key (origin.entry key) = .ok registry)

include accepted

theorem registered_here : registry.entry? key = some (origin.entry key) := by
  rw [Registry.entry?_register accepted, if_pos rfl]

theorem registered_elsewhere {other : Key} (apart : other ≠ key) :
    registry.entry? other = desk.registry.entry? other := by
  rw [Registry.entry?_register accepted, if_neg apart]

include sound

/-- The key is not among those deferred before. -/
theorem registered_apart {other : Key} (member : other ∈ desk.deferred) : other ≠ key := by
  rintro rfl
  have known := sound.known other member
  rw [Registry.kept?, (Ledger.register_ok accepted).1] at known
  cases known

theorem registered_distinct : (desk.deferred ++ origin.defers key).Nodup := by
  cases origin with
  | value => exact (List.append_nil desk.deferred).symm ▸ sound.distinct
  | deferred =>
    refine List.nodup_append.mpr ⟨sound.distinct, List.nodup_singleton key, fun other member last one => ?_⟩
    rw [List.mem_singleton.mp one]
    exact sound.registered_apart accepted member

theorem registered_known {other : Key} (member : other ∈ desk.deferred ++ origin.defers key) :
    (registry.kept? other).isSome = true := by
  by_cases same : other = key
  · rw [same, Registry.kept?, registered_here accepted]
    rfl
  · rw [Registry.kept?, registered_elsewhere accepted same]
    refine sound.known other ((List.mem_append.mp member).resolve_right fun late => same ?_)
    cases origin with
    | value => exact absurd late List.not_mem_nil
    | deferred => exact List.mem_singleton.mp late

theorem registered_fits {other : Key} {kept : Option Stored × Option Payload}
    (found : registry.kept? other = some kept) :
    Fits { desk with registry, deferred := desk.deferred ++ origin.defers key } other kept := by
  by_cases same : other = key
  · subst same
    rw [Registry.kept?, registered_here accepted] at found
    cases found
    cases origin with
    | value => exact (rfl : other.type = other.type)
    | deferred => exact ⟨List.mem_append_right _ (List.mem_singleton_self other), rfl⟩
  · rw [Registry.kept?, registered_elsewhere accepted same] at found
    have fits := sound.fits other kept found
    obtain ⟨stored, payload⟩ := kept
    cases stored with
    | some stored => exact fits
    | none => exact ⟨List.mem_append_left _ fits.1, fits.2⟩

/-- Nobody is at work on the entry before it is there. -/
theorem registered_seated (other : Key) : desk.visits.countP (Visit.Initializes other) ≤
    if registry.busy other then 1 else 0 := by
  have seated := sound.seated other
  by_cases same : other = key
  · have idle : desk.registry.busy other = false := by
      rw [same, Registry.busy, (Ledger.register_ok accepted).1]
      rfl
    rw [idle] at seated
    exact seated.trans (Nat.zero_le _)
  · rwa [Registry.busy, ← registered_elsewhere accepted same] at seated

theorem registered_completions : ((desk.deferred ++ origin.defers key).countP fun other => registry.complete other) =
    desk.completions := by
  have later : (origin.defers key).countP (fun other => registry.complete other) = 0 := by
    cases origin with
    | value => rfl
    | deferred payload =>
      have unfinished : registry.complete key = false := by
        rw [Registry.complete, registered_here accepted]
        rfl
      simp [Origin.defers, unfinished]
  rw [List.countP_append, later, Nat.add_zero]
  refine List.countP_congr fun other member => ?_
  rw [Registry.complete, Registry.complete, registered_elsewhere accepted (sound.registered_apart accepted member)]

/-- A key is registered. -/
theorem registered : Sound { desk with registry, deferred := desk.deferred ++ origin.defers key } where
  distinct := sound.registered_distinct accepted
  known _ member := sound.registered_known accepted member
  fits _ _ found := sound.registered_fits accepted found
  typed := sound.typed
  met := sound.met
  seated := sound.registered_seated accepted
  fair := sound.fair
  hits := by
    rw [(Ledger.register_ok accepted).2]
    exact sound.hits
  initializations := by
    rw [(Ledger.register_ok accepted).2]
    exact sound.initializations
  completions := (sound.registered_completions accepted).trans sound.completions

end Registered

/-- Of a list without repetitions one more element has a property than before. -/
theorem countP_more {keys : List Key} {key : Key} {before after : Key → Bool} (distinct : keys.Nodup)
    (member : key ∈ keys) (fresh : before key = false) (now : after key = true)
    (others : ∀ other, other ≠ key → after other = before other) :
    keys.countP after = keys.countP before + 1 := by
  have split := List.perm_cons_erase member
  have apart : ∀ other ∈ keys.erase key, after other = true ↔ before other = true := by
    intro other later
    have different : other ≠ key := by
      rintro rfl
      exact distinct.not_mem_erase later
    rw [others other different]
  calc keys.countP after = (key :: keys.erase key).countP after := split.countP_eq after
    _ = (keys.erase key).countP after + 1 := List.countP_cons_of_pos now
    _ = (keys.erase key).countP before + 1 := by rw [List.countP_congr apart]
    _ = (key :: keys.erase key).countP before + 1 := by
      rw [List.countP_cons_of_neg (by simp [fresh])]
    _ = keys.countP before + 1 := by rw [split.countP_eq before]

/-- Who initializes an entry holds its gate, and the entry waits for its value. -/
theorem initialized (sound : desk.Sound) (present : desk.visits = visit ::ₘ rest)
    (initializes : visit.standing = .initializing) :
    desk.registry.busy visit.key = true ∧ ∃ payload, desk.registry.kept? visit.key = some (none, payload) ∧
      visit.key ∈ desk.deferred := by
  have seated := sound.seated visit.key
  rw [present, Multiset.countP_cons, if_pos ⟨rfl, initializes⟩] at seated
  have busy : desk.registry.busy visit.key = true := by
    by_contra idle
    rw [if_neg idle] at seated
    omega
  obtain ⟨entry, found, held⟩ := (Option.any_eq_true _ _).mp busy
  have open' : entry.value = none := by simpa using ((Bool.and_eq_true _ _).mp held).1
  have kept : desk.registry.kept? visit.key = some (none, entry.payload) := by
    rw [Registry.kept?, found, Option.map_some, open']
  exact ⟨busy, entry.payload, kept, (sound.fits visit.key _ kept).1⟩

/-- Nobody but the one fetch initializes the entry, and it does so no more. -/
theorem vacated (sound : desk.Sound) (present : desk.visits = visit ::ₘ rest)
    (initializes : visit.standing = .initializing) (apart : standing ≠ .initializing) :
    desk.Rooms visit standing registry := by
  intro others room
  rw [if_pos initializes, (sound.initialized present initializes).1] at room
  have alone : others = 0 := by simpa using room
  rw [alone, if_neg apart]
  exact Nat.zero_le _

/-- An initializer has made its value. -/
theorem complete (sound : desk.Sound) (present : desk.visits = visit ::ₘ rest)
    (initializes : visit.standing = .initializing) (value : Value) :
    (desk.put ((desk.registry.settle visit.key ⟨visit.type, value⟩).2.unlink visit.owner visit.key) visit
      (.ended .completed) rest).Sound := by
  have member : visit ∈ desk.visits := present ▸ Multiset.mem_cons_self visit rest
  have typed := sound.typed visit member (.inr initializes)
  have never := (sound.met visit member).not.mp (by simp [initializes])
  obtain ⟨busy, payload, kept, deferred⟩ := sound.initialized present initializes
  generalize grown : (desk.registry.settle visit.key ⟨visit.type, value⟩).2.unlink visit.owner visit.key = after
  have settled := Registry.Stirs.unlink (desk.registry.settle visit.key ⟨visit.type, value⟩).2 visit.owner visit.key
  rw [grown] at settled
  have here : after.kept? visit.key = some (some ⟨visit.type, value⟩, none) :=
    (settled.kept visit.key).trans (Registry.kept?_settle kept _)
  have elsewhere : ∀ other, other ≠ visit.key → after.kept? other = desk.registry.kept? other :=
    fun other apart => (settled.kept other).trans (Registry.kept?_settle_other apart)
  have counted : after.initializations = desk.registry.initializations := by
    rw [← grown, Registry.unlink_initializations]
    rfl
  have unmade : desk.registry.complete visit.key = false := by
    rw [Registry.complete_eq, kept]
    rfl
  have made : after.complete visit.key = true := by
    rw [Registry.complete_eq, here]
    rfl
  have fair : (Standing.ended .completed).initializations = visit.standing.initializations + 0 := by
    rw [initializes]
    rfl
  have passes : desk.Passes visit (.ended .completed) after :=
    ⟨.inr initializes, fun _ => typed, ⟨nofun, fun both => absurd both never⟩,
      fun other apart => (settled.busy other apart).trans (Registry.busy_settle_other apart),
      sound.vacated present initializes nofun, settled.hits, 0, counted, fair⟩
  refine sound.put .known present passes (fun other known => ?_) (fun other value found => ?_)
    (countP_more sound.distinct deferred unmade made fun other apart =>
      Registry.complete_congr (elsewhere other apart))
  · by_cases same : other = visit.key
    · rw [same, here]
      rfl
    · rwa [elsewhere other same]
  · by_cases same : other = visit.key
    · subst same
      rw [here] at found
      cases found
      exact typed
    · exact sound.fits other value ((elsewhere other same).symm.trans found)

/-- A fetch that waits ends, and who initializes the entry stays the same. -/
theorem leaves {fate : Fate} (sound : desk.Sound) (present : desk.visits = visit ::ₘ rest)
    (waiting : visit.standing = .waiting) (stirs : desk.registry.Stirs visit.key registry)
    (busy : registry.busy visit.key = desk.registry.busy visit.key)
    (counted : registry.initializations = desk.registry.initializations)
    (vain : (Standing.ended fate).initializations = 0) (notHit : fate ≠ .hit) :
    (desk.put registry visit (.ended fate) rest).Sound := by
  have unfinished : Standing.ended fate ≠ .ended .completed := by
    rintro completed
    rw [completed] at vain
    cases vain
  refine sound.goes_on present (.inl waiting) stirs (fun others room => ?_) 0 counted ?_
    (fun hit => notHit (Standing.ended.inj hit)) unfinished
  · rw [waiting] at room
    rw [busy]
    exact room
  · rw [vain, waiting]
    rfl

/-- An initializer is over without a value. -/
theorem gives_up {fate : Fate} (sound : desk.Sound) (present : desk.visits = visit ::ₘ rest)
    (initializes : visit.standing = .initializing) (vain : fate = .failed ∨ fate = .cancelled) :
    (desk.put ((desk.registry.release visit.key).2.unlink visit.owner visit.key) visit (.ended fate) rest).Sound := by
  have stirs := (Registry.Stirs.release desk.registry visit.key).trans (.unlink _ visit.owner visit.key)
  have counted : ((desk.registry.release visit.key).2.unlink visit.owner visit.key).initializations =
      desk.registry.initializations := by
    rw [Registry.unlink_initializations, Registry.release_initializations]
  refine sound.goes_on present (.inr initializes) stirs (sound.vacated present initializes nofun) 0 counted ?_ ?_ ?_
  · rw [initializes]
    rcases vain with rfl | rfl <;> rfl
  · rcases vain with rfl | rfl <;> exact nofun
  · rcases vain with rfl | rfl <;> exact nofun

/-- A fetch that waits gets its turn. -/
theorem turn (sound : desk.Sound) (present : desk.visits = visit ::ₘ rest) (waiting : visit.standing = .waiting)
    (looks : desk.registry.resume visit.type visit.key visit.ticket = (.turn, registry)) :
    (desk.put registry visit .initializing rest).Sound := by
  have counted := desk.registry.resume_initializations visit.type visit.key visit.ticket
  rw [looks] at counted
  cases Registry.resume_resumes looks with
  | turn idle stirs busy =>
    refine sound.goes_on present (.inl waiting) stirs (fun others room => ?_) 1 counted (by rw [waiting]; rfl)
      nofun nofun
    rw [waiting, if_neg nofun, idle] at room
    have alone : others = 0 := by simpa using room
    rw [alone, if_pos rfl, busy]
    exact Nat.le_refl 1

/-- Every move leaves the desk in order. -/
theorem moves {move : Move} (sound : desk.Sound) (moves : Moves move desk next) : next.Sound := by
  cases moves with
  | registered accepted => exact sound.registered accepted
  | rejected taken => exact sound
  | arrive arrives => exact sound.arrive arrives
  | waits present waiting looks =>
    cases Registry.resume_resumes looks
    exact sound.goes_on present (.inl waiting) (.refl _) (fun others room => by rwa [waiting] at room) 0 rfl
      (by rw [waiting]; rfl) nofun nofun
  | turn present waiting looks => exact sound.turn present waiting looks
  | answered present waiting looks =>
    cases Registry.resume_resumes looks
    exact sound.leaves present waiting (.unlink _ _ _) (Registry.busy_unlink _) (Registry.unlink_initializations _) rfl
      nofun
  | refused present waiting looks =>
    cases Registry.resume_resumes looks
    exact sound.leaves present waiting (.unlink _ _ _) (Registry.busy_unlink _) (Registry.unlink_initializations _) rfl
      nofun
  | withdraw present waiting =>
    refine sound.leaves present waiting ((Registry.Stirs.withdraw _ _ _).trans (.unlink _ _ _)) ?_ ?_ rfl nofun
    · rw [Registry.busy_unlink, Registry.busy_withdraw]
    · rw [Registry.unlink_initializations, Registry.withdraw_initializations]
  | complete value present initializes => exact sound.complete present initializes value
  | fail present initializes => exact sound.gives_up present initializes (.inl rfl)
  | cancel present initializes => exact sound.gives_up present initializes (.inr rfl)

/-- So does every run. -/
theorem run {moves : List Move} (sound : desk.Sound) (run : Run moves desk next) : next.Sound := by
  induction run with
  | nil => exact sound
  | cons moved _ ih => exact ih (sound.moves moved)

/-- No figure becomes smaller by a move. -/
theorem moves_grows {move : Move} (sound : desk.Sound) (moves : Moves move desk next) :
    desk.registry.Grows next.registry := by
  cases moves with
  | registered accepted => exact .register accepted
  | rejected taken => exact .refl _
  | @arrive _ ticket key type owner strands arrival registry arrives =>
    have arrived := Registry.arrive_arrives (fun stored payload found => sound.fits key _ found) arrives
    have counted := desk.registry.arrive_initializations type key owner ⟨ticket, strands⟩
    rw [arrives] at counted
    exact arrived.grows counted
  | waits present waiting looks => exact .resume looks
  | turn present waiting looks => exact .resume looks
  | answered present waiting looks => exact (Registry.Grows.resume looks).trans (.unlink _ _ _)
  | refused present waiting looks => exact (Registry.Grows.resume looks).trans (.unlink _ _ _)
  | withdraw present waiting => exact (Registry.Grows.withdraw _ _ _).trans (.unlink _ _ _)
  | complete value present initializes => exact (Registry.Grows.settle _ _ _).trans (.unlink _ _ _)
  | fail present initializes => exact (Registry.Grows.release _ _).trans (.unlink _ _ _)
  | cancel present initializes => exact (Registry.Grows.release _ _).trans (.unlink _ _ _)

theorem run_grows {moves : List Move} (sound : desk.Sound) (run : Run moves desk next) :
    desk.registry.Grows next.registry := by
  induction run with
  | nil => exact .refl _
  | cons moved _ ih => exact (sound.moves_grows moved).trans (ih (sound.moves moved))

end Sound

/-! ### The account -/

/-- What the figures of the registry say about the fetches. -/
structure Accounted (desk : Desk) : Prop where
  /-- hits are the fetches that found their entry complete when they arrived -/
  hits : desk.registry.stats.hits =
    desk.visits.countP fun visit => visit.met = true ∧ visit.type = visit.key.type
  /-- initializations are the deferred entries that are complete and the initializers that failed, that were given up,
  and that are at work -/
  initializations : desk.registry.stats.initializations = desk.completions + desk.standing (.ended .failed) +
    desk.standing (.ended .cancelled) + desk.standing .initializing
  /-- both are made up of what the fetches have added -/
  shares : desk.registry.stats.hits = (desk.visits.map Visit.hits).sum ∧
    desk.registry.stats.initializations = (desk.visits.map Visit.initializations).sum
  /-- no fetch has added to both, or more than one -/
  once : ∀ visit ∈ desk.visits, visit.hits + visit.initializations ≤ 1
  /-- so that there are never more than fetches -/
  bounded : desk.registry.stats.hits + desk.registry.stats.initializations ≤ desk.visits.card
  /-- one that was refused, was answered by another's initializer, or went or is still waiting has added nothing -/
  vain : ∀ visit ∈ desk.visits, (visit.standing = .waiting ∨ visit.standing = .ended .answered ∨
    visit.standing = .ended .withdrawn ∨ ∃ error, visit.standing = .ended (.refused error)) →
      visit.hits = 0 ∧ visit.initializations = 0

/-- All initializations among some fetches, by what came of them. -/
theorem sum_initializations (visits : Multiset Visit) :
    (visits.map fun visit => visit.standing.initializations).sum =
      visits.countP (fun visit => visit.standing = .ended .completed) +
        visits.countP (fun visit => visit.standing = .ended .failed) +
        visits.countP (fun visit => visit.standing = .ended .cancelled) +
        visits.countP fun visit => visit.standing = .initializing := by
  induction visits using Multiset.induction with
  | empty => rfl
  | cons visit rest ih =>
    simp only [Multiset.map_cons, Multiset.sum_cons, Multiset.countP_cons, ih]
    cases visit.standing with
    | waiting => simp [Standing.initializations]
    | initializing =>
      simp [Standing.initializations]
      omega
    | ended fate => cases fate <;> simp [Standing.initializations] <;> omega

theorem sum_hits (visits : Multiset Visit) : (visits.map fun visit => visit.standing.hits).sum =
    visits.countP fun visit => visit.standing = .ended .hit := by
  induction visits using Multiset.induction with
  | empty => rfl
  | cons visit rest ih =>
    rw [Multiset.map_cons, Multiset.sum_cons, Multiset.countP_cons, ih, Nat.add_comm, Standing.hits]

/-- No fetch adds to both figures, or more than one. -/
theorem Sound.once {desk : Desk} (sound : desk.Sound) :
    ∀ visit ∈ desk.visits, visit.hits + visit.initializations ≤ 1 := by
  intro visit member
  have fair := sound.fair visit member
  rw [fair.1, fair.2]
  cases visit.standing with
  | waiting => decide
  | initializing => decide
  | ended fate => cases fate <;> simp [Standing.hits, Standing.initializations]

theorem Sound.accounted {desk : Desk} (sound : desk.Sound) : desk.Accounted where
  hits := by
    have fair : desk.visits.map Visit.hits = desk.visits.map fun visit => visit.standing.hits :=
      Multiset.map_congr rfl fun visit member => (sound.fair visit member).1
    calc desk.registry.hits = (desk.visits.map Visit.hits).sum := sound.hits
      _ = desk.visits.countP fun visit => visit.standing = .ended .hit := by rw [fair, sum_hits]
      _ = desk.visits.countP fun visit => visit.met = true ∧ visit.type = visit.key.type :=
        Multiset.countP_congr rfl fun visit member => by rw [sound.met visit member]
  initializations := by
    have fair : desk.visits.map Visit.initializations = desk.visits.map fun visit => visit.standing.initializations :=
      Multiset.map_congr rfl fun visit member => (sound.fair visit member).2
    show desk.registry.initializations = _
    rw [sound.initializations, fair, sum_initializations, sound.completions]
    rfl
  shares := ⟨sound.hits, sound.initializations⟩
  once := sound.once
  bounded := by
    have each : ∀ share ∈ desk.visits.map fun visit => visit.hits + visit.initializations, share ≤ 1 := by
      intro share member
      obtain ⟨visit, inside, rfl⟩ := Multiset.mem_map.mp member
      exact sound.once visit inside
    calc desk.registry.hits + desk.registry.initializations
        = (desk.visits.map fun visit => visit.hits + visit.initializations).sum := by
          rw [sound.hits, sound.initializations, Multiset.sum_map_add]
      _ ≤ (desk.visits.map fun visit => visit.hits + visit.initializations).card • 1 :=
        Multiset.sum_le_card_nsmul _ 1 each
      _ = desk.visits.card := by simp
  vain visit member idle := by
    have fair := sound.fair visit member
    rw [fair.1, fair.2]
    rcases idle with same | same | same | ⟨error, same⟩ <;> rw [same] <;> exact ⟨rfl, rfl⟩

/-- Every fetch has arrived once. -/
theorem Run.card {moves : List Move} {desk next : Desk} (run : Run moves desk next) :
    next.visits.card = desk.visits.card + moves.countP Move.isArrival := by
  induction run with
  | nil => rfl
  | cons moved _ ih =>
    rw [ih, List.countP_cons]
    cases moved with
    | registered accepted => rfl
    | rejected taken => rfl
    | arrive arrives =>
      rw [put, Multiset.card_cons, Move.isArrival, if_pos rfl]
      omega
    | _ => simp_all [put, Move.isArrival]

/-- A fetch is refused, and changes nothing, if it asks for another type, if nothing is registered, or if it would wait
in a circle. -/
theorem turned_away {desk next : Desk} {ticket : Nat} {key : Key} {type : TypeName} {owner : Option Key}
    {strands : List Strand} (moves : Moves (.arrive ticket key type owner strands) desk next)
    (vain : type ≠ key.type ∨ desk.registry.entry? key = none ∨
      desk.registry.complete key = false ∧ ∃ error, desk.registry.link owner key = .error error) :
    next.registry = desk.registry ∧ ∃ error, next.visits =
      ⟨ticket, key, type, owner, desk.registry.complete key, .ended (.refused error), 0, 0⟩ ::ₘ desk.visits := by
  have refuses : ∃ error, desk.registry.arrive type key owner ⟨ticket, strands⟩ = (.refused error, desk.registry) := by
    unfold Registry.arrive
    split
    next => exact ⟨_, rfl⟩
    next same =>
      rw [ne_eq, not_not] at same
      rcases vain with other | absent | ⟨incomplete, error, circle⟩
      · exact absurd same.symm other
      · rw [absent]
        exact ⟨_, rfl⟩
      · split
        next => exact ⟨_, rfl⟩
        next found => simp [Registry.complete, found, Entry.isComplete] at incomplete
        next => exact ⟨_, rfl⟩
        next =>
          rw [circle]
          exact ⟨_, rfl⟩
  obtain ⟨error, refused⟩ := refuses
  cases moves with
  | arrive arrives =>
    cases refused.symm.trans arrives
    exact ⟨rfl, error, by simp [put, moved, Registry.Arrival.standing]⟩

end Desk

end Blueprint
