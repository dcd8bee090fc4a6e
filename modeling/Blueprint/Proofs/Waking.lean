import Blueprint.Proofs.Ledger
import Blueprint.Proofs.Machine.Places
/-! Whoever can go on is called. A mark is stirred once what it waits for has happened; then its strand is
queued to be run, and so are the strands around it, unless a look is on its way there. -/

namespace Blueprint

namespace Registry

variable {registry : Registry} {key : Key}

/-- The waiters of an entry, in order. -/
def queue (registry : Registry) (key : Key) : List Waiter :=
  ((registry.entry? key).map Entry.queue).getD []

theorem queue_congr {first second : Registry} (same : first.entries = second.entries) (key : Key) :
    first.queue key = second.queue key := by
  simp only [queue, Registry.entry?, same]

theorem queue_modify_other (change : Entry → Entry) {other : Key} (different : other ≠ key) :
    (registry.modify key change).queue other = registry.queue other := by
  rw [queue, entry?_modify_other _ _ _ different, queue]

theorem queue_modify (change : Entry → Entry) (next : List Waiter → List Waiter) (empty : next [] = [])
    (same : ∀ entry, (change entry).queue = next entry.queue) :
    (registry.modify key change).queue key = next (registry.queue key) := by
  rw [queue, entry?_modify_self, queue]
  cases registry.entry? key with
  | none => exact empty.symm
  | some entry => exact same entry

theorem queue_modify_kept (change : Entry → Entry) (same : ∀ entry, (change entry).queue = entry.queue)
    (other : Key) : (registry.modify key change).queue other = registry.queue other := by
  by_cases here : other = key
  · subst here
    exact queue_modify change id rfl same
  · exact queue_modify_other change here

end Registry

namespace World

def queue (world : World) (key : Key) : List Waiter := world.registry.queue key

end World

/-- Whether what a mark waits for has happened. -/
def Mark.Stirred (world : World) (chain : List Strand) : Mark → Prop
  | timer id due => ⟨id, due, chain⟩ ∉ world.timers
  | seat key ticket => ⟨ticket, chain⟩ ∉ world.queue key
  | fan id => ∃ position, .element id position ∈ world.ready
  | idle => True

/-- The innermost of some strands is queued to be run. -/
def Called (ready chain : List Strand) : Prop :=
  ∃ strand ∈ ready, chain.head? = some strand

/-- A mark that is stirred is called. -/
def Mark.Awake (world : World) (mark : List Strand × Mark) : Prop :=
  mark.2.Stirred world mark.1 → Called world.ready mark.1

/-- A change of the world that leaves no mark behind that was awake. -/
def World.Minds (marks : Marks) (before after : World) : Prop :=
  ∀ mark ∈ marks, Mark.Awake before mark → Mark.Awake after mark

namespace World.Minds

variable {marks fewer : Marks} {first second third : World}

theorem refl (marks : Marks) (world : World) : world.Minds marks world := fun _ _ awake => awake

theorem trans (left : first.Minds marks second) (right : second.Minds marks third) : first.Minds marks third :=
  fun mark member awake => right mark member (left mark member awake)

theorem mono (minds : first.Minds marks second) (below : fewer ≤ marks) : first.Minds fewer second :=
  fun mark member => minds mark (Multiset.mem_of_le below member)

end World.Minds

namespace Strand

theorem subset_wake (chain ready : List Strand) : ready ⊆ wake ready chain := by
  induction chain generalizing ready with
  | nil => exact List.Subset.refl _
  | cons strand outer ih =>
    rw [wake]
    split
    · exact List.Subset.refl _
    · exact List.Subset.trans (List.subset_append_left _ _) (ih _)

theorem called_wake {chain : List Strand} (ready : List Strand) (long : chain ≠ []) :
    Called (wake ready chain) chain := by
  cases chain with
  | nil => exact absurd rfl long
  | cons strand outer =>
    refine ⟨strand, ?_, rfl⟩
    rw [wake]
    split
    · assumption
    · exact subset_wake _ _ (by simp)

/-- A strand that is queued by waking has told the one around it. -/
theorem told_wake {chain ready : List Strand} {strand : Strand} (queued : strand ∈ wake ready chain) :
    strand ∈ ready ∨ ∃ outer, (strand :: outer) <:+ chain ∧ (outer ≠ [] → Called (wake ready chain) outer) := by
  induction chain generalizing ready with
  | nil => exact .inl queued
  | cons first outer ih =>
    rw [wake] at queued ⊢
    split at queued
    next => exact .inl queued
    next fresh =>
      rw [if_neg fresh]
      rcases ih queued with early | ⟨rest, inside, told⟩
      · rcases List.mem_append.mp early with old | new
        · exact .inl old
        · rw [List.mem_singleton] at new
          subst new
          exact .inr ⟨outer, List.suffix_refl _, fun long => called_wake _ long⟩
      · exact .inr ⟨rest, inside.trans (List.suffix_cons _ _), told⟩

/-- The strands of several sleepers, one sleeper after another. -/
def wakeEach (ready : List Strand) (chains : List (List Strand)) : List Strand :=
  chains.foldl wake ready

theorem subset_wakeEach (chains : List (List Strand)) (ready : List Strand) :
    ready ⊆ wakeEach ready chains := by
  induction chains generalizing ready with
  | nil => exact List.Subset.refl _
  | cons chain rest ih => exact List.Subset.trans (subset_wake chain ready) (ih _)

theorem called_wakeEach {chains : List (List Strand)} {chain : List Strand} (ready : List Strand)
    (member : chain ∈ chains) (long : chain ≠ []) : Called (wakeEach ready chains) chain := by
  induction chains generalizing ready with
  | nil => cases member
  | cons first rest ih =>
    rcases List.mem_cons.mp member with rfl | later
    · obtain ⟨strand, queued, same⟩ := called_wake ready long
      exact ⟨strand, subset_wakeEach rest _ queued, same⟩
    · exact ih _ later

theorem told_wakeEach {chains : List (List Strand)} {ready : List Strand} {strand : Strand}
    (queued : strand ∈ wakeEach ready chains) : strand ∈ ready ∨
      ∃ chain ∈ chains, ∃ outer, (strand :: outer) <:+ chain ∧
        (outer ≠ [] → Called (wakeEach ready chains) outer) := by
  induction chains generalizing ready with
  | nil => exact .inl queued
  | cons first rest ih =>
    rcases ih queued with early | ⟨chain, member, later⟩
    · rcases told_wake early with old | ⟨outer, inside, told⟩
      · exact .inl old
      · refine .inr ⟨first, List.mem_cons_self, outer, inside, fun long => ?_⟩
        obtain ⟨next, found, same⟩ := told long
        exact ⟨next, subset_wakeEach rest _ found, same⟩
    · exact .inr ⟨chain, List.mem_cons_of_mem _ member, later⟩

end Strand

theorem World.wakeAll_eq (world : World) (waiters : List Waiter) :
    world.wakeAll waiters = { world with ready := Strand.wakeEach world.ready (waiters.map Waiter.strands) } := by
  induction waiters generalizing world with
  | nil => rfl
  | cons waiter rest ih => exact ih _

/-- The collections that a chain runs through are marked where the chain runs through them. -/
def Marks.Suit (marks : Marks) (chain : List Strand) : Prop :=
  ∀ id position outer, (.element id position :: outer) <:+ chain →
    ∀ strands, (strands, .fan id) ∈ marks → strands = outer

/-- Waking strands, after a change that stirs only those who sleep on them. -/
theorem World.Minds.of_woken {marks : Marks} {before after : World} (chains : List (List Strand))
    (ready : after.ready = Strand.wakeEach before.ready chains)
    (timers : ∀ id due chain, (chain, .timer id due) ∈ marks → ⟨id, due, chain⟩ ∈ before.timers →
      ⟨id, due, chain⟩ ∈ after.timers ∨ chain ∈ chains)
    (seats : ∀ key ticket chain, (chain, .seat key ticket) ∈ marks → ⟨ticket, chain⟩ ∈ before.queue key →
      ⟨ticket, chain⟩ ∈ after.queue key ∨ chain ∈ chains)
    (suit : ∀ chain ∈ chains, marks.Suit chain) (long : ∀ mark ∈ marks, mark.1 ≠ []) :
    before.Minds marks after := by
  rintro ⟨chain, mark⟩ member awake stirred
  have still : Called before.ready chain → Called after.ready chain := by
    rintro ⟨strand, queued, same⟩
    exact ⟨strand, ready ▸ Strand.subset_wakeEach chains _ queued, same⟩
  have woken : chain ∈ chains → Called after.ready chain := fun listed =>
    ready ▸ Strand.called_wakeEach _ listed (long _ member)
  cases mark with
  | idle => exact still (awake trivial)
  | timer id due =>
    by_cases early : ⟨id, due, chain⟩ ∈ before.timers
    · exact woken ((timers id due chain member early).resolve_left stirred)
    · exact still (awake early)
  | seat key ticket =>
    by_cases early : ⟨ticket, chain⟩ ∈ before.queue key
    · exact woken ((seats key ticket chain member early).resolve_left stirred)
    · exact still (awake early)
  | fan id =>
    obtain ⟨position, queued⟩ := stirred
    rw [ready] at queued
    rcases Strand.told_wakeEach queued with old | ⟨other, listed, outer, inside, told⟩
    · exact still (awake ⟨position, old⟩)
    · have same : chain = outer := suit other listed id position outer inside chain member
      subst same
      exact ready ▸ told (long _ member)

end Blueprint
