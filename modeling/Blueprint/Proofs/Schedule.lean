import Mathlib.Data.List.Count
import Mathlib.Data.List.Perm.Basic
import Mathlib.Order.Lattice
/-! Greedy schedules. Slots are known by the times from which on they are free, and pieces of work are given out in
order, each to the slot that is free first. It does not matter how the slots are listed. More slots and shorter
work never make a schedule longer: at all times at least as many slots are free, and the last of them not later. -/

namespace Blueprint.Schedule

variable {free other lengths shorter longer times : List Nat} {length now start bound : Nat}

/-- The latest of some times, or the start if none is later. -/
def latest (start : Nat) (times : List Nat) : Nat :=
  times.foldr max start

/-- Give a piece of work to the slot that is free first. -/
def assign (free : List Nat) (length : Nat) : List Nat :=
  match free.min? with
  | none => []
  | some first => (first + length) :: free.erase first

/-- Give out pieces of work in order. -/
def assignAll (free lengths : List Nat) : List Nat :=
  lengths.foldl assign free

/-- The time that pieces of work take that are given out in order to a number of slots. -/
def makespan (slots : Nat) (lengths : List Nat) : Nat :=
  latest 0 (assignAll (List.replicate slots 0) lengths)

theorem latest_cons (start time : Nat) (rest : List Nat) :
    latest start (time :: rest) = max time (latest start rest) := rfl

theorem latest_le_iff : latest start times ≤ bound ↔ start ≤ bound ∧ ∀ time ∈ times, time ≤ bound := by
  induction times with
  | nil => simp [latest]
  | cons time rest ih =>
    rw [latest_cons, Nat.max_le, ih, List.forall_mem_cons]
    exact and_left_comm

theorem start_le_latest (start : Nat) (times : List Nat) : start ≤ latest start times :=
  (latest_le_iff.mp (Nat.le_refl _)).1

theorem le_latest {time : Nat} (member : time ∈ times) : time ≤ latest start times :=
  (latest_le_iff.mp (Nat.le_refl _)).2 time member

theorem latest_congr {others : List Nat} (same : ∀ time, time ∈ times ↔ time ∈ others) :
    latest start times = latest start others := by
  refine eq_of_forall_ge_iff fun bound => ?_
  simp only [latest_le_iff, same]

theorem latest_perm {others : List Nat} (same : times.Perm others) : latest start times = latest start others :=
  latest_congr fun _ => same.mem_iff

/-- Where something ends late enough, it does not matter where to start from. -/
theorem latest_start {later : Nat} (some' : times ≠ []) (ends : ∀ time ∈ times, later ≤ time) (le : now ≤ later) :
    latest now times = latest later times := by
  refine eq_of_forall_ge_iff fun bound => ?_
  rw [latest_le_iff, latest_le_iff]
  obtain ⟨time, member⟩ := List.exists_mem_of_ne_nil _ some'
  have late := ends time member
  constructor
  · exact fun ⟨_, each⟩ => ⟨late.trans (each time member), each⟩
  · exact fun ⟨begins, each⟩ => ⟨le.trans begins, each⟩

/-- Slots that are free from the start on do not matter if nothing is given out. -/
theorem latest_append_replicate (start room : Nat) (times : List Nat) :
    latest start (times ++ List.replicate room start) = latest start times := by
  refine eq_of_forall_ge_iff fun bound => ?_
  rw [latest_le_iff, latest_le_iff, List.forall_mem_append]
  constructor
  · rintro ⟨begins, each, _⟩
    exact ⟨begins, each⟩
  · rintro ⟨begins, each⟩
    refine ⟨begins, each, fun time member => ?_⟩
    rwa [List.eq_of_mem_replicate member]

theorem latest_shift (now : Nat) (times : List Nat) :
    latest now (times.map (now + ·)) = now + latest 0 times := by
  induction times with
  | nil => rfl
  | cons time rest ih =>
    rw [List.map_cons, latest_cons, latest_cons, ih]
    omega

/-- What happens to the slots: the first one is taken, and the others are left as they are. -/
theorem assign_cases (some' : free ≠ []) (length : Nat) : ∃ first rest, free.Perm (first :: rest) ∧
    (∀ time ∈ rest, first ≤ time) ∧ assign free length = (first + length) :: rest := by
  obtain ⟨first, found⟩ : ∃ first, free.min? = some first := by
    cases found : free.min? with
    | none => exact absurd (List.min?_eq_none_iff.mp found) some'
    | some first => exact ⟨first, rfl⟩
  obtain ⟨member, least⟩ := List.min?_eq_some_iff.mp found
  refine ⟨first, free.erase first, List.perm_cons_erase member,
    fun time inside => least time (List.mem_of_mem_erase inside), ?_⟩
  rw [assign, found]

theorem assign_least (member : now ∈ free) (least : ∀ time ∈ free, now ≤ time) (length : Nat) :
    assign free length = (now + length) :: free.erase now := by
  rw [assign, List.min?_eq_some_iff.mpr ⟨member, least⟩]

theorem assign_nil (length : Nat) : assign [] length = [] := rfl

theorem assign_ne_nil (some' : free ≠ []) : assign free length ≠ [] := by
  obtain ⟨first, rest, _, _, same⟩ := assign_cases some' length
  exact same ▸ List.cons_ne_nil _ _

theorem assign_perm (same : free.Perm other) (length : Nat) :
    (assign free length).Perm (assign other length) := by
  by_cases none : free = []
  · subst none
    rw [List.nil_perm.mp same]
  · obtain ⟨first, rest, slots, least, taken⟩ := assign_cases none length
    have firsts : ∀ time ∈ other, first ≤ time := by
      intro time member
      rcases List.mem_cons.mp ((same.symm.trans slots).mem_iff.mp member) with rfl | later
      · exact Nat.le_refl _
      · exact least time later
    have member : first ∈ other := (same.symm.trans slots).mem_iff.mpr List.mem_cons_self
    rw [taken, assign_least member firsts]
    refine List.Perm.cons _ ?_
    exact ((List.perm_cons first).mp ((slots.symm.trans same).trans (List.perm_cons_erase member)))

theorem assignAll_perm (same : free.Perm other) (lengths : List Nat) :
    (assignAll free lengths).Perm (assignAll other lengths) := by
  induction lengths generalizing free other with
  | nil => exact same
  | cons length rest ih => exact ih (assign_perm same length)

theorem assignAll_append (free first second : List Nat) :
    assignAll free (first ++ second) = assignAll (assignAll free first) second :=
  List.foldl_append

/-- No slot becomes free before all are. -/
theorem le_of_mem_assignAll (bounded : ∀ time ∈ free, now ≤ time) : ∀ time ∈ assignAll free lengths, now ≤ time := by
  induction lengths generalizing free with
  | nil => exact bounded
  | cons length rest ih =>
    refine ih fun time member => ?_
    by_cases none : free = []
    · subst none
      simp [assign_nil] at member
    · obtain ⟨first, others, slots, least, taken⟩ := assign_cases none length
      have early : now ≤ first := bounded first (slots.mem_iff.mpr List.mem_cons_self)
      rw [taken] at member
      rcases List.mem_cons.mp member with rfl | inside
      · omega
      · exact early.trans (least time inside)

theorem assignAll_ne_nil (some' : free ≠ []) : assignAll free lengths ≠ [] := by
  induction lengths generalizing free with
  | nil => exact some'
  | cons length rest ih => exact ih (assign_ne_nil some')

theorem latest_le_assign (start : Nat) (free : List Nat) (length : Nat) :
    latest start free ≤ latest start (assign free length) := by
  by_cases none : free = []
  · rw [none]
    exact Nat.le_refl _
  · obtain ⟨first, rest, slots, _, taken⟩ := assign_cases none length
    rw [taken, latest_perm slots, latest_cons, latest_cons]
    omega

/-- Giving out work does not make slots free earlier. -/
theorem latest_le_assignAll (start : Nat) (free lengths : List Nat) :
    latest start free ≤ latest start (assignAll free lengths) := by
  induction lengths generalizing free with
  | nil => exact Nat.le_refl _
  | cons length rest ih => exact (latest_le_assign start free length).trans (ih _)

theorem assign_shift (now : Nat) (free : List Nat) (length : Nat) :
    (assign (free.map (now + ·)) length).Perm ((assign free length).map (now + ·)) := by
  by_cases none : free = []
  · subst none
    rfl
  · obtain ⟨first, rest, slots, least, taken⟩ := assign_cases none length
    refine (assign_perm (slots.map _) length).trans ?_
    have early : ∀ time ∈ (first :: rest).map (now + ·), now + first ≤ time := by
      refine List.forall_mem_map.mpr (List.forall_mem_cons.mpr ⟨Nat.le_refl _, fun time member => ?_⟩)
      exact Nat.add_le_add_left (least time member) now
    rw [taken, assign_least (List.mem_map_of_mem List.mem_cons_self) early, List.map_cons, List.map_cons,
      List.erase_cons_head, Nat.add_assoc]

/-- A schedule that starts later ends as much later. -/
theorem assignAll_shift (now : Nat) (free lengths : List Nat) :
    (assignAll (free.map (now + ·)) lengths).Perm ((assignAll free lengths).map (now + ·)) := by
  induction lengths generalizing free with
  | nil => rfl
  | cons length rest ih => exact (assignAll_perm (assign_shift now free length) rest).trans (ih _)

theorem latest_replicate (now slots : Nat) (lengths : List Nat) :
    latest now (assignAll (List.replicate slots now) lengths) = now + makespan slots lengths := by
  have moved : List.replicate slots now = (List.replicate slots 0).map (now + ·) := by simp
  rw [moved, latest_perm (assignAll_shift now _ lengths), latest_shift, makespan]

/-- As long as slots are free now, work starts now. -/
theorem assignAll_free (ends : List Nat) (bounded : ∀ time ∈ ends, now ≤ time) {room : Nat}
    (enough : lengths.length ≤ room) : (assignAll (ends ++ List.replicate room now) lengths).Perm
      (lengths.map (now + ·) ++ ends ++ List.replicate (room - lengths.length) now) := by
  induction lengths generalizing ends room with
  | nil => rfl
  | cons length rest ih =>
    obtain ⟨room, rfl⟩ : ∃ less, room = less + 1 := ⟨room - 1, by simp at enough; omega⟩
    have slots : (ends ++ List.replicate (room + 1) now).Perm (now :: (ends ++ List.replicate room now)) := by
      rw [List.replicate_succ]
      exact List.perm_middle
    have least : ∀ time ∈ now :: (ends ++ List.replicate room now), now ≤ time := by
      intro time member
      simp only [List.mem_cons, List.mem_append, List.mem_replicate] at member
      rcases member with rfl | inside | ⟨_, rfl⟩
      · exact Nat.le_refl _
      · exact bounded time inside
      · exact Nat.le_refl _
    have taken := assign_perm slots length
    rw [assign_least List.mem_cons_self least, List.erase_cons_head] at taken
    have busy : ∀ time ∈ (now + length) :: ends, now ≤ time :=
      List.forall_mem_cons.mpr ⟨Nat.le_add_right _ _, bounded⟩
    refine (assignAll_perm taken rest).trans ((ih ((now + length) :: ends) busy (by simpa using enough)).trans ?_)
    rw [List.length_cons, Nat.add_sub_add_right, List.map_cons, List.cons_append, List.cons_append]
    exact List.Perm.append_right _ List.perm_middle

/-- At all times at least as many slots of the first kind are free as of the second, and their last one not later. -/
structure Ahead (free other : List Nat) : Prop where
  counts : ∀ time, other.countP (· ≤ time) ≤ free.countP (· ≤ time)
  last : latest 0 free ≤ latest 0 other

theorem Ahead.perm {one two : List Nat} (ahead : Ahead free other) (first : free.Perm one) (second : other.Perm two) :
    Ahead one two where
  counts time := by
    rw [← first.countP_eq, ← second.countP_eq]
    exact ahead.counts time
  last := by
    rw [← latest_perm first, ← latest_perm second]
    exact ahead.last

/-- Slots that are ahead stay ahead if they are given shorter work. -/
theorem Ahead.assign (ahead : Ahead free other) (some' : other ≠ []) {less more : Nat} (le : less ≤ more) :
    Ahead (assign free less) (assign other more) := by
  obtain ⟨late, busy, slots, second, taken⟩ := assign_cases some' more
  have present : 0 < free.countP (· ≤ late) := by
    refine Nat.lt_of_lt_of_le ?_ (ahead.counts late)
    exact List.countP_pos_iff.mpr ⟨late, slots.mem_iff.mpr List.mem_cons_self, by simp⟩
  obtain ⟨time, member, soon⟩ := List.countP_pos_iff.mp present
  obtain ⟨early, idle, places, first, given⟩ := assign_cases (List.ne_nil_of_mem member) less
  have sooner : early ≤ late := by
    refine Nat.le_trans ?_ (of_decide_eq_true soon)
    rcases List.mem_cons.mp (places.mem_iff.mp member) with rfl | inside
    · exact Nat.le_refl _
    · exact first time inside
  have ahead := ahead.perm places slots
  rw [given, taken]
  refine ⟨fun time => ?_, ?_⟩
  · have counts := ahead.counts time
    simp only [List.countP_cons, decide_eq_true_eq] at counts ⊢
    by_cases begun : late ≤ time
    · split at counts <;> split at counts <;> split <;> split <;> omega
    · -- before the first slot is free, none is
      have none : busy.countP (· ≤ time) = 0 :=
        List.countP_eq_zero.mpr fun other inside => by
          have := second other inside
          simp only [decide_eq_true_eq]
          omega
      rw [none]
      split <;> split <;> omega
  · have last := latest_le_iff.mp ahead.last
    have longer : latest 0 (late :: busy) ≤ latest 0 ((late + more) :: busy) := by
      refine latest_le_iff.mpr ⟨Nat.zero_le _, List.forall_mem_cons.mpr ⟨?_, fun time inside => ?_⟩⟩
      · exact (Nat.le_add_right late more).trans (le_latest List.mem_cons_self)
      · exact le_latest (List.mem_cons_of_mem _ inside)
    refine latest_le_iff.mpr ⟨Nat.zero_le _, List.forall_mem_cons.mpr ⟨?_, fun time inside => ?_⟩⟩
    · exact (Nat.add_le_add sooner le).trans (le_latest List.mem_cons_self)
    · exact (last.2 time (List.mem_cons_of_mem _ inside)).trans longer

theorem Ahead.assignAll (ahead : Ahead free other) (some' : other ≠ [])
    (each : List.Forall₂ (· ≤ ·) shorter longer) : Ahead (assignAll free shorter) (assignAll other longer) := by
  induction each generalizing free other with
  | nil => exact ahead
  | cons le _ ih => exact ih (ahead.assign some' le) (assign_ne_nil some')

/-- More slots and shorter work make no schedule longer. -/
theorem makespan_mono {few many : Nat} (one : 1 ≤ few) (le : few ≤ many)
    (each : List.Forall₂ (· ≤ ·) shorter longer) : makespan many shorter ≤ makespan few longer := by
  have start : Ahead (List.replicate many 0) (List.replicate few 0) := by
    refine ⟨fun time => by simpa [List.countP_replicate] using le, ?_⟩
    refine latest_le_iff.mpr ⟨Nat.zero_le _, fun time member => ?_⟩
    rw [List.eq_of_mem_replicate member]
    exact Nat.zero_le _
  have some' : List.replicate few 0 ≠ [] := by
    rw [Ne, List.replicate_eq_nil_iff]
    omega
  exact (start.assignAll some' each).last

end Blueprint.Schedule
