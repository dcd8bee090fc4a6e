import Blueprint.Proofs.Task.Timing
import Blueprint.Proofs.Task.Waits
import Blueprint.Proofs.Watched
/-! Time that passes while a task waits. What waits only for timers, none of which is due before some time, does not
end before that time, and waiting until then makes no difference to when it ends. -/

namespace Blueprint

open Schedule

/-- What a mark waits for is a timer that is not due before a time, or lies further in. -/
def Mark.After (time : Nat) : Mark → Prop
  | timer _ due => time ≤ due
  | fan _ => True
  | seat _ _ | idle => False

namespace Task

variable {task : Task} {lookup : Lookup} {meanings : Lookup → Prop} {now later : Nat}

/-- The parts of what has a value have values. -/
theorem known_of_join {parts : List (Part Task)} (known : ((Task.join parts).value? lookup).isSome)
    (member : .running task ∈ parts) : (task.value? lookup).isSome := by
  rw [value?_join, Option.isSome_map, Option.isSome_iff_ne_none] at known
  rw [Option.isSome_iff_ne_none]
  intro absent
  refine known (collect_eq_none_iff.mpr ?_)
  obtain ⟨first, last, rfl⟩ := List.append_of_mem member
  simp [absent]

/-- The elements that run of a collection that has a value have values. -/
theorem known_of_fan {fan : Fan Task} (proper : fan.Proper) (known : ((Task.fan fan).value? lookup).isSome)
    {element : Nat × Task} (member : element ∈ fan.running) : (element.2.value? lookup).isSome := by
  rw [value?_fan, Option.isSome_iff_ne_none] at known
  rw [Option.isSome_iff_ne_none]
  intro absent
  have listed : element.1 ∈ fan.positions := by
    simp only [Fan.positions, List.mem_append]
    exact .inl (.inr (List.mem_map_of_mem member))
  refine known (gathered_none (List.mem_range.mp (proper.whole.mem_iff.mp listed)) (OrderedMap.get?_of_mem ?_ ?_))
  · rw [elementValues_keys]
    exact proper.distinct
  · simp only [elementValues, valuesOfElements_eq_map, List.mem_append, List.mem_map]
    exact .inl (.inr ⟨element, member, by rw [absent]⟩)

/-- Where all ends late enough, it does not matter when the parts are looked at. -/
theorem ends_of_late {one two : List Nat} (some' : one ≠ []) (same : two = one) (late : ∀ time ∈ one, later ≤ time)
    (le : now ≤ later) : later ≤ latest now one ∧ latest later two = latest now one := by
  subst same
  obtain ⟨time, member⟩ := List.exists_mem_of_ne_nil _ some'
  exact ⟨(late time member).trans (le_latest member), (latest_start some' late le).symm⟩

/-- What waits only for timers that are not due before some time may be looked at then as well as now. -/
theorem ends_of_after {chain : List Strand} (packed : task.Packed) (sound : task.Sound meanings)
    (known : (task.value? lookup).isSome) (after : ∀ mark ∈ task.marks chain, mark.2.After later) (le : now ≤ later) :
    later ≤ task.ends now ∧ task.ends later = task.ends now := by
  induction task using Task.induction generalizing chain with
  | node | shell | variant | field | waiting => exact (after _ (Multiset.mem_singleton_self _)).elim
  | delay due timer next =>
    have due' : later ≤ due := after _ (Multiset.mem_singleton_self _)
    rw [ends_delay, ends_delay, Nat.max_eq_right due', Nat.max_eq_right (le.trans due')]
    exact ⟨due'.trans (le_ends due next), rfl⟩
  | forever => cases known
  | inside frame task ih =>
    have inner : (task.value? lookup).isSome := by
      rw [Option.isSome_iff_ne_none] at known ⊢
      intro absent
      exact known (by rw [value?_inside, absent, frame.value?_none])
    obtain ⟨late, same⟩ := ih (packed_inside.mp packed) ((sound_inside _ _).mp sound).2 inner after
    rw [ends_inside, ends_inside, same]
    exact ⟨late.trans (Nat.le_add_right _ _), rfl⟩
  | join parts ih =>
    rw [marks_join] at after
    split at after
    next => exact (after _ (Multiset.mem_singleton_self _)).elim
    next open' =>
      have each : ∀ task, .running task ∈ parts → later ≤ task.ends now ∧ task.ends later = task.ends now :=
        fun task member => ih task member (packed_join.mp packed task member)
          (soundParts_iff.mp ((sound_join _).mp sound) task member) (known_of_join known member) fun mark inner =>
            after mark (mem_marksOfParts.mpr ⟨task, member, inner⟩)
      have same : endsOfParts later parts = endsOfParts now parts := by
        rw [endsOfParts_map id fun task member => (each task member).2, List.map_id]
      have late : ∀ time ∈ endsOfParts now parts, later ≤ time := by
        intro time inside
        obtain ⟨task, member, rfl⟩ := mem_endsOfParts.mp inside
        exact (each task member).1
      obtain ⟨task, member⟩ := running_of_not_over (Option.not_isSome_iff_eq_none.mp open')
      rw [ends_join, ends_join]
      exact ends_of_late (List.ne_nil_of_mem (mem_endsOfParts.mpr ⟨task, member, rfl⟩)) same late le
  | fan fan _ running =>
    obtain ⟨proper, _, started⟩ := (sound_fan fan).mp sound
    obtain ⟨own, inner⟩ := packed_fan.mp packed
    have runs : fan.running ≠ [] := fun none => after (chain, .idle) (by simp [marks_fan, none])
    have each : ∀ element ∈ fan.running, later ≤ element.2.ends now ∧ element.2.ends later = element.2.ends now :=
      fun element member => running element member (inner element member)
        (soundElements_iff.mp started element member) (known_of_fan proper known member) fun mark found =>
          after mark (marks_of_element member found)
    have same : endsOfElements later fan.running = endsOfElements now fan.running := by
      rw [endsOfElements_eq_map, endsOfElements_eq_map]
      exact List.map_congr_left fun element member => (each element member).2
    have late : ∀ time ∈ endsOfElements now fan.running, later ≤ time := by
      rw [endsOfElements_eq_map]
      exact List.forall_mem_map.mpr fun element member => (each element member).1
    have some' : endsOfElements now fan.running ≠ [] := by
      rw [endsOfElements_eq_map]
      exact List.map_eq_nil_iff.not.mpr runs
    have ends := ends_of_late some' same late le
    rw [ends_fan, ends_fan, Fan.slots, Fan.slots]
    rcases own.full with none | none | full
    · exact absurd none runs
    · rw [none, endsOfElements_eq_map 0]
      simp only [List.map_nil, assignAll, List.foldl_nil, latest_append_replicate]
      exact ends
    · rw [full, Nat.sub_self, List.replicate_zero, List.append_nil, List.replicate_zero, List.append_nil, same]
      exact ends_of_late (assignAll_ne_nil some') rfl (le_of_mem_assignAll late) le

/-- Whoever has left a mark in a queue stands there. -/
theorem waiting_of_seat {chain strands : List Strand} {key : Key} {ticket : Nat}
    (member : (strands, .seat key ticket) ∈ task.marks chain) (owner : Option Key) :
    ∃ other fetch, (other, .waiting fetch ticket) ∈ task.stakes owner := by
  induction task using Task.induction generalizing owner chain with
  | node | shell | variant | field | delay => cases Multiset.mem_singleton.mp member
  | forever => exact absurd member (Multiset.notMem_zero _)
  | waiting fetch own =>
    cases Multiset.mem_singleton.mp member
    exact ⟨owner, fetch, Multiset.mem_singleton_self _⟩
  | inside frame task ih =>
    obtain ⟨other, fetch, found⟩ := ih member (frame.owner owner)
    refine ⟨other, fetch, ?_⟩
    rw [stakes_inside]
    exact Multiset.mem_add.mpr (.inr found)
  | join parts ih =>
    rw [marks_join] at member
    split at member
    · cases Multiset.mem_singleton.mp member
    · obtain ⟨task, listed, inner⟩ := mem_marksOfParts.mp member
      obtain ⟨other, fetch, found⟩ := ih task listed inner owner
      refine ⟨other, fetch, ?_⟩
      rw [stakes_join]
      exact mem_stakesOfParts.mpr ⟨task, listed, found⟩
  | fan fan _ running =>
    rw [marks_fan, Multiset.mem_cons, Multiset.mem_add] at member
    rcases member with same | own | inner
    · cases same
    · split at own
      · cases Multiset.mem_singleton.mp own
      · simp at own
    · obtain ⟨element, listed, inner⟩ := mem_marksOfElements.mp inner
      obtain ⟨other, fetch, found⟩ := running element listed inner owner
      refine ⟨other, fetch, ?_⟩
      rw [stakes_fan]
      exact Multiset.mem_add.mpr (.inr (mem_stakesOfElements.mpr ⟨element, listed, found⟩))

/-- Whoever is stirred somewhere in a task that lies on a strand calls that strand: what calls an element of a
collection calls the collection. -/
theorem called_of_stirred {strand : Strand} {chain : List Strand} {world : World}
    (awake : ∀ mark ∈ task.marks (strand :: chain), Mark.Awake world mark) {strands : List Strand} {mark : Mark}
    (member : (strands, mark) ∈ task.marks (strand :: chain)) (stirred : mark.Stirred world strands) :
    strand ∈ world.ready := by
  induction strands generalizing mark with
  | nil => exact absurd (suffix_of_mark member).length_le (by simp)
  | cons first outer ih =>
    obtain ⟨queued, ready, head⟩ := awake _ member stirred
    cases head
    rcases rooted_of_mark member with same | rooted
    · cases same
      exact ready
    · cases first with
      | operation other =>
        have alone : outer = [] := rooted
        have inside := suffix_of_mark member
        rw [alone] at inside
        have equal := inside.eq_of_length_le (by simp)
        cases equal
        exact ready
      | element fan position => exact ih rooted ⟨position, ready⟩

/-- Nothing of a task that waits for no entry and is not called is due before the timers that are set. -/
theorem after_of_silent {strand : Strand} {chain : List Strand} {world : World}
    (awake : ∀ mark ∈ task.marks (strand :: chain), Mark.Awake world mark)
    (silent : strand ∉ world.ready) {owner : Option Key}
    (free : ∀ other fetch ticket, (other, .waiting fetch ticket) ∉ task.stakes owner)
    (bound : ∀ timer ∈ world.timers, later ≤ timer.due) :
    ∀ mark ∈ task.marks (strand :: chain), mark.2.After later := by
  intro mark member
  have still : ¬ mark.2.Stirred world mark.1 := fun stirred => silent (called_of_stirred awake member stirred)
  obtain ⟨strands, kind⟩ := mark
  cases kind with
  | timer id due => exact bound _ (not_not.mp still)
  | seat key ticket =>
    obtain ⟨other, fetch, found⟩ := waiting_of_seat member owner
    exact absurd found (free other fetch ticket)
  | fan id => trivial
  | idle => exact absurd trivial still

end Task

end Blueprint
