import Blueprint.Proofs.Machine.Account
import Blueprint.Proofs.Task.Every
import Blueprint.Proofs.Task.Marks
/-! Tasks of which every branch waits for others. If such a task has anything to do that is wanted, one of its
branches stands in a queue for it. -/

namespace Blueprint

/-- Whoever leaves this mark waits in a queue, or for its elements. -/
def Mark.Waits : Mark → Prop
  | seat _ _ | fan _ => True
  | timer _ _ | idle => False

namespace Task

variable {owner : Option Key} {stake : Option Key × Stake} {meanings : Lookup → Prop}

theorem Unstarted.not_claim {task : Task} (unstarted : task.Unstarted) (member : stake ∈ task.stakes owner) :
    stake.2.hold? stake.1 = none := by
  rw [Option.eq_none_iff_forall_ne_some]
  intro hold same
  have inside : hold ∈ Stakes.holds (task.stakes owner) := (Multiset.mem_filterMap _ _).mpr ⟨stake, member, same⟩
  rw [unstarted.holds] at inside
  exact absurd inside (Multiset.notMem_zero hold)

/-- Only elements that have started claim anything. -/
theorem mem_running_of_claim {fan : Fan Task} (proper : fan.Proper) (member : stake ∈ (Task.fan fan).stakes owner)
    {hold : Hold} (claims : stake.2.hold? stake.1 = some hold) :
    ∃ element ∈ fan.running, stake ∈ element.2.stakes owner := by
  rw [stakes_fan, Multiset.mem_add, mem_stakesOfElements, mem_stakesOfElements] at member
  rcases member with ⟨element, queued, own⟩ | running
  · rw [(proper.unstarted element queued).not_claim own] at claims
    cases claims
  · exact running

/-- Whoever stands in a queue has left a mark there. -/
theorem seat_of_waiting {task : Task} {chain : List Strand} (sound : task.Sound meanings) {other : Option Key}
    {fetch : Fetch} {ticket : Nat} (member : (other, .waiting fetch ticket) ∈ task.stakes owner) :
    ∃ strands, (strands, .seat fetch.key ticket) ∈ task.marks chain := by
  induction task using Task.induction generalizing owner chain with
  | node | shell | variant | field =>
    obtain ⟨_, _, same⟩ := mem_pendings.mp member
    cases same
  | delay due timer next ih =>
    have idle := Unstarted.not_claim ((sound_delay due timer next).mp sound) member
    cases idle
  | forever => exact absurd member (Multiset.notMem_zero _)
  | waiting own number =>
    rw [stakes_waiting, Multiset.mem_singleton] at member
    cases member
    exact ⟨chain, Multiset.mem_singleton_self _⟩
  | inside frame task ih =>
    rw [stakes_inside, Multiset.mem_add] at member
    rcases member with own | inner
    · cases frame <;> simp [Frame.stakes, mem_pendings] at own
    · exact ih ((sound_inside frame task).mp sound).2 inner
  | join parts ih =>
    obtain ⟨task, listed, inner⟩ := mem_stakesOfParts.mp (by rwa [stakes_join] at member)
    obtain ⟨strands, found⟩ := ih task listed (soundParts_iff.mp ((sound_join parts).mp sound) task listed) inner
    refine ⟨strands, ?_⟩
    rw [marks_join_open chain (not_over_of_running _ listed)]
    exact mem_marksOfParts.mpr ⟨task, listed, found⟩
  | fan fan queued running =>
    obtain ⟨proper, _, started⟩ := (sound_fan fan).mp sound
    obtain ⟨element, listed, inner⟩ := mem_running_of_claim proper member rfl
    obtain ⟨strands, found⟩ := running element listed (soundElements_iff.mp started element listed) inner
    refine ⟨strands, ?_⟩
    rw [marks_fan]
    exact Multiset.mem_cons_of_mem (Multiset.mem_add.mpr (.inr (mem_marksOfElements.mpr ⟨element, listed, found⟩)))

section Standing

variable {free : Option Key → Prop} {demand : Demand}

/-- The marks of a collection all of whose branches wait are those of elements that have started. -/
theorem element_of_waits {fan : Fan Task} {chain : List Strand}
    (waits : ∀ mark ∈ (Task.fan fan).marks chain, mark.2.Waits) : fan.running ≠ [] := by
  intro none
  refine waits (chain, .idle) ?_
  rw [marks_fan, none]
  simp

theorem marks_of_element {fan : Fan Task} {chain : List Strand} {element : Nat × Task} (listed : element ∈ fan.running)
    {mark : List Strand × Mark} (member : mark ∈ element.2.marks (.element fan.id element.1 :: chain)) :
    mark ∈ (Task.fan fan).marks chain := by
  rw [marks_fan]
  exact Multiset.mem_cons_of_mem (Multiset.mem_add.mpr (.inr (mem_marksOfElements.mpr ⟨element, listed, member⟩)))

theorem marks_of_part {parts : List (Part Task)} {chain : List Strand} {task : Task}
    (listed : .running task ∈ parts) {mark : List Strand × Mark} (member : mark ∈ task.marks chain) :
    mark ∈ (Task.join parts).marks chain := by
  rw [marks_join_open chain (not_over_of_running _ listed)]
  exact mem_marksOfParts.mpr ⟨task, listed, member⟩

/-- If all branches of a task wait for others and nothing that is wanted never goes on, one of them stands in a
queue for something that is wanted. -/
theorem waiting_of_free {task : Task} {chain : List Strand} (wanted : free owner) (every : task.Every demand owner)
    (goes : ∀ other, free other → ¬ demand other .forever)
    (turns : ∀ other fetch, (other, .turn fetch) ∈ task.stakes owner → free other → free (some fetch.key))
    (waits : ∀ mark ∈ task.marks chain, mark.2.Waits) :
    ∃ other fetch ticket, free other ∧ (other, .waiting fetch ticket) ∈ task.stakes owner := by
  induction task using Task.induction generalizing owner chain with
  | node | shell | variant | field => exact (waits _ (Multiset.mem_singleton_self _)).elim
  | delay => exact (waits _ (Multiset.mem_singleton_self _)).elim
  | forever => exact absurd every (goes owner wanted)
  | waiting fetch ticket => exact ⟨owner, fetch, ticket, wanted, Multiset.mem_singleton_self _⟩
  | inside frame task ih =>
    rw [stakes_inside] at turns ⊢
    have inner : free (frame.owner owner) := by
      cases frame with
      | fetching fetch => exact turns owner fetch (Multiset.mem_add.mpr (.inl (Multiset.mem_singleton_self _))) wanted
      | _ => exact wanted
    obtain ⟨other, fetch, ticket, known, member⟩ := ih inner every.2
      (fun other fetch member => turns other fetch (Multiset.mem_add.mpr (.inr member))) waits
    exact ⟨other, fetch, ticket, known, Multiset.mem_add.mpr (.inr member)⟩
  | join parts ih =>
    rw [stakes_join] at turns ⊢
    have open' : parts.mapM Part.value? = none := by
      by_contra complete
      refine waits (chain, .idle) ?_
      rw [marks_join, if_pos (Option.isSome_iff_ne_none.mpr complete)]
      exact Multiset.mem_singleton_self _
    obtain ⟨task, listed⟩ := running_of_not_over open'
    obtain ⟨other, fetch, ticket, known, member⟩ := ih task listed wanted (every_join.mp every task listed)
      (fun other fetch member => turns other fetch (mem_stakesOfParts.mpr ⟨task, listed, member⟩))
      fun mark member => waits mark (marks_of_part listed member)
    exact ⟨other, fetch, ticket, known, mem_stakesOfParts.mpr ⟨task, listed, member⟩⟩
  | fan fan queued running =>
    rw [stakes_fan] at turns ⊢
    obtain ⟨element, listed⟩ := List.exists_mem_of_ne_nil _ (element_of_waits waits)
    have inside : ∀ stake ∈ element.2.stakes owner,
        stake ∈ stakesOfElements owner fan.queued + stakesOfElements owner fan.running := fun stake member =>
      Multiset.mem_add.mpr (.inr (mem_stakesOfElements.mpr ⟨element, listed, member⟩))
    obtain ⟨other, fetch, ticket, known, member⟩ := running element listed wanted
      (every_fan.mp every element (List.mem_append_right _ listed))
      (fun other fetch member => turns other fetch (inside _ member))
      fun mark member => waits mark (marks_of_element listed member)
    exact ⟨other, fetch, ticket, known, inside _ member⟩

/-- The same where an entry that flows is being initialized somewhere in the task. -/
theorem waiting_of_turn {task : Task} {chain : List Strand} (sound : task.Sound meanings)
    (every : task.Every demand owner) (goes : ∀ other, free other → ¬ demand other .forever)
    (turns : ∀ other fetch, (other, .turn fetch) ∈ task.stakes owner → free other → free (some fetch.key))
    (waits : ∀ mark ∈ task.marks chain, mark.2.Waits) {outer : Option Key} {held : Fetch}
    (turn : (outer, .turn held) ∈ task.stakes owner) (wanted : free (some held.key)) :
    ∃ other fetch ticket, free other ∧ (other, .waiting fetch ticket) ∈ task.stakes owner := by
  induction task using Task.induction generalizing owner chain with
  | node | shell | variant | field => exact (waits _ (Multiset.mem_singleton_self _)).elim
  | delay => exact (waits _ (Multiset.mem_singleton_self _)).elim
  | forever => exact absurd turn (Multiset.notMem_zero _)
  | waiting fetch ticket =>
    rw [stakes_waiting, Multiset.mem_singleton] at turn
    cases turn
  | inside frame task ih =>
    rw [stakes_inside] at turns turn ⊢
    have within : ∀ other fetch, (other, .turn fetch) ∈ task.stakes (frame.owner owner) → free other →
        free (some fetch.key) := fun other fetch member => turns other fetch (Multiset.mem_add.mpr (.inr member))
    have found : ∃ other fetch ticket,
        free other ∧ (other, .waiting fetch ticket) ∈ task.stakes (frame.owner owner) := by
      rcases Multiset.mem_add.mp turn with own | inner
      · cases frame with
        | fetching fetch =>
          rw [Frame.stakes, Multiset.mem_singleton] at own
          cases own
          exact waiting_of_free wanted every.2 goes within waits
        | _ => simp [Frame.stakes, mem_pendings] at own
      · exact ih ((sound_inside frame task).mp sound).2 every.2 within waits inner
    obtain ⟨other, fetch, ticket, known, member⟩ := found
    exact ⟨other, fetch, ticket, known, Multiset.mem_add.mpr (.inr member)⟩
  | join parts ih =>
    rw [stakes_join] at turns turn ⊢
    obtain ⟨task, listed, inner⟩ := mem_stakesOfParts.mp turn
    obtain ⟨other, fetch, ticket, known, member⟩ := ih task listed
      (soundParts_iff.mp ((sound_join parts).mp sound) task listed) (every_join.mp every task listed)
      (fun other fetch member => turns other fetch (mem_stakesOfParts.mpr ⟨task, listed, member⟩))
      (fun mark member => waits mark (marks_of_part listed member)) inner
    exact ⟨other, fetch, ticket, known, mem_stakesOfParts.mpr ⟨task, listed, member⟩⟩
  | fan fan queued running =>
    obtain ⟨proper, _, started⟩ := (sound_fan fan).mp sound
    obtain ⟨element, listed, inner⟩ := mem_running_of_claim proper turn rfl
    rw [stakes_fan] at turns ⊢
    have inside : ∀ stake ∈ element.2.stakes owner,
        stake ∈ stakesOfElements owner fan.queued + stakesOfElements owner fan.running := fun stake member =>
      Multiset.mem_add.mpr (.inr (mem_stakesOfElements.mpr ⟨element, listed, member⟩))
    obtain ⟨other, fetch, ticket, known, member⟩ := running element listed
      (soundElements_iff.mp started element listed) (every_fan.mp every element (List.mem_append_right _ listed))
      (fun other fetch member => turns other fetch (inside _ member))
      (fun mark member => waits mark (marks_of_element listed member)) inner
    exact ⟨other, fetch, ticket, known, inside _ member⟩

end Standing

end Task

end Blueprint
