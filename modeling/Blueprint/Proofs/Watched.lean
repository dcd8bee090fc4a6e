import Blueprint.Proofs.Waking
/-! The world knows who waits. Every waiter in a queue and every timer belongs to a mark, and marks are told
apart by their numbers. What the registry and the clock do keeps this, and leaves nobody behind. -/

namespace Blueprint

/-- The queues and timers of the world agree with the marks of all operations. -/
structure Marks.Watched (marks : Marks) (world : World) : Prop where
  distinct : marks.numbers.Nodup
  issued : ∀ number ∈ marks.numbers, number < world.fresh
  waiters : ∀ key, ∀ waiter ∈ world.queue key, (waiter.strands, .seat key waiter.ticket) ∈ marks
  timers : ∀ timer ∈ world.timers,
    (timer.strands, .timer timer.id timer.due) ∈ marks ∧ world.now < timer.due
  clocks : ∀ chain id due, (chain, .timer id due) ∈ marks →
    ⟨id, due, chain⟩ ∈ world.timers ∨ due ≤ world.now

namespace Marks

variable {marks rest : Marks} {world after : World} {chain : List Strand}

@[simp] theorem numbers_cons_idle : numbers ((chain, .idle) ::ₘ marks) = numbers marks :=
  Multiset.filterMap_cons_none _ _ rfl

@[simp] theorem numbers_cons_timer (id due : Nat) :
    numbers ((chain, .timer id due) ::ₘ marks) = id ::ₘ numbers marks :=
  Multiset.filterMap_cons_some _ _ _ rfl

@[simp] theorem numbers_cons_seat (key : Key) (ticket : Nat) :
    numbers ((chain, .seat key ticket) ::ₘ marks) = ticket ::ₘ numbers marks :=
  Multiset.filterMap_cons_some _ _ _ rfl

@[simp] theorem numbers_cons_fan (id : Nat) :
    numbers ((chain, .fan id) ::ₘ marks) = id ::ₘ numbers marks :=
  Multiset.filterMap_cons_some _ _ _ rfl

theorem number_of_timer {id due : Nat} (member : (chain, .timer id due) ∈ marks) : id ∈ marks.numbers :=
  mem_numbers.mpr ⟨_, member, rfl⟩

theorem number_of_seat {key : Key} {ticket : Nat} (member : (chain, .seat key ticket) ∈ marks) :
    ticket ∈ marks.numbers :=
  mem_numbers.mpr ⟨_, member, rfl⟩

theorem number_of_fan {id : Nat} (member : (chain, .fan id) ∈ marks) : id ∈ marks.numbers :=
  mem_numbers.mpr ⟨_, member, rfl⟩

theorem Headed.ne_nil (headed : marks.Headed) {mark : List Strand × Mark} (member : mark ∈ marks) :
    mark.1 ≠ [] := by
  intro empty
  have rooted := headed mark member
  rw [empty] at rooted
  exact rooted

namespace Watched

theorem suit (watched : marks.Watched world) (headed : marks.Headed) (rooted : marks.Rooted chain) :
    marks.Suit chain := by
  intro id position outer inside strands member
  have found := headed.fan_mem rooted inside
  exact (Prod.mk.inj (eq_of_number watched.distinct member found rfl rfl)).1

/-- A mark without a number may come and go. -/
theorem idle_iff : Watched ((chain, .idle) ::ₘ marks) world ↔ marks.Watched world := by
  constructor
  · intro watched
    refine ⟨by simpa using watched.distinct, by simpa using watched.issued, fun key waiter member => ?_,
      fun timer member => ?_, fun strands id due member => ?_⟩
    · simpa using watched.waiters key waiter member
    · simpa using watched.timers timer member
    · exact watched.clocks strands id due (Multiset.mem_cons_of_mem member)
  · intro watched
    refine ⟨by simpa using watched.distinct, by simpa using watched.issued, fun key waiter member => ?_,
      fun timer member => ?_, fun strands id due member => ?_⟩
    · exact Multiset.mem_cons_of_mem (watched.waiters key waiter member)
    · exact ⟨Multiset.mem_cons_of_mem (watched.timers timer member).1, (watched.timers timer member).2⟩
    · exact watched.clocks strands id due (by simpa using member)

/-- Fewer waiters are still known. -/
theorem fewer (watched : marks.Watched world) (fresh : world.fresh ≤ after.fresh)
    (queues : ∀ key, ∀ waiter ∈ after.queue key, waiter ∈ world.queue key)
    (timers : after.timers = world.timers) (now : after.now = world.now) : marks.Watched after where
  distinct := watched.distinct
  issued number member := Nat.lt_of_lt_of_le (watched.issued number member) fresh
  waiters key waiter member := watched.waiters key waiter (queues key waiter member)
  timers timer member := by
    rw [timers] at member
    exact ⟨(watched.timers timer member).1, now ▸ (watched.timers timer member).2⟩
  clocks strands id due member := by
    rw [timers, now]
    exact watched.clocks strands id due member

theorem drop_fan {id : Nat} (watched : Watched ((chain, .fan id) ::ₘ marks) world) : marks.Watched world := by
  have distinct := watched.distinct
  have issued := watched.issued
  rw [numbers_cons_fan] at distinct issued
  refine ⟨(Multiset.nodup_cons.mp distinct).2,
    fun number member => issued number (Multiset.mem_cons_of_mem member), fun key waiter member => ?_,
    fun timer member => ?_, fun strands id due member => ?_⟩
  · simpa using watched.waiters key waiter member
  · simpa using watched.timers timer member
  · exact watched.clocks strands id due (Multiset.mem_cons_of_mem member)

theorem drop_timer {id due : Nat} (watched : Watched ((chain, .timer id due) ::ₘ marks) world) :
    marks.Watched (world.dropTimer id) := by
  have distinct := watched.distinct
  have issued := watched.issued
  rw [numbers_cons_timer] at distinct issued
  rw [Multiset.nodup_cons] at distinct
  refine ⟨distinct.2, fun number member => issued number (Multiset.mem_cons_of_mem member),
    fun key waiter member => ?_, fun timer member => ?_, fun strands other until' member => ?_⟩
  · simpa using watched.waiters key waiter member
  · obtain ⟨present, different⟩ := List.mem_filter.mp member
    have known := watched.timers timer present
    refine ⟨(Multiset.mem_cons.mp known.1).resolve_left fun same => ?_, known.2⟩
    simp only [Prod.mk.injEq, Mark.timer.injEq] at same
    simp [same.2.1] at different
  · rcases watched.clocks strands other until' (Multiset.mem_cons_of_mem member) with set | past
    · refine .inl (List.mem_filter.mpr ⟨set, ?_⟩)
      have different : other ≠ id := fun same => distinct.1 (same ▸ number_of_timer member)
      simpa using different
    · exact .inr past

/-- A place in a queue that is no longer taken may be forgotten. -/
theorem drop_seat {key : Key} {ticket : Nat} (watched : Watched ((chain, .seat key ticket) ::ₘ marks) world)
    (gone : ∀ waiter ∈ world.queue key, waiter.ticket ≠ ticket) : marks.Watched world := by
  have distinct := watched.distinct
  have issued := watched.issued
  rw [numbers_cons_seat] at distinct issued
  refine ⟨(Multiset.nodup_cons.mp distinct).2,
    fun number member => issued number (Multiset.mem_cons_of_mem member), fun other waiter member => ?_,
    fun timer member => ?_, fun strands id due member => ?_⟩
  · refine (Multiset.mem_cons.mp (watched.waiters other waiter member)).resolve_left fun same => ?_
    simp only [Prod.mk.injEq, Mark.seat.injEq] at same
    exact gone waiter (same.2.1 ▸ member) same.2.2
  · simpa using watched.timers timer member
  · exact watched.clocks strands id due (Multiset.mem_cons_of_mem member)

theorem add_fan (watched : marks.Watched world) (chain : List Strand) :
    Watched ((chain, .fan world.fresh) ::ₘ marks) world.take.2 := by
  refine ⟨?_, fun number member => ?_, fun key waiter member => ?_, fun timer member => ?_,
    fun strands id due member => ?_⟩
  · rw [numbers_cons_fan, Multiset.nodup_cons]
    exact ⟨fun old => Nat.lt_irrefl _ (watched.issued _ old), watched.distinct⟩
  · rw [numbers_cons_fan, Multiset.mem_cons] at member
    rcases member with rfl | old
    · exact Nat.lt_succ_self _
    · exact Nat.lt_succ_of_lt (watched.issued number old)
  · exact Multiset.mem_cons_of_mem (watched.waiters key waiter member)
  · exact ⟨Multiset.mem_cons_of_mem (watched.timers timer member).1, (watched.timers timer member).2⟩
  · exact watched.clocks strands id due (by simpa using member)

theorem add_timer (watched : marks.Watched world) (chain : List Strand) (due : Nat) (later : world.now < due) :
    Watched ((chain, .timer world.fresh due) ::ₘ marks) (world.setTimer due chain).2 := by
  refine ⟨?_, fun number member => ?_, fun key waiter member => ?_, fun timer member => ?_,
    fun strands id until' member => ?_⟩
  · rw [numbers_cons_timer, Multiset.nodup_cons]
    exact ⟨fun old => Nat.lt_irrefl _ (watched.issued _ old), watched.distinct⟩
  · rw [numbers_cons_timer, Multiset.mem_cons] at member
    rcases member with rfl | old
    · exact Nat.lt_succ_self _
    · exact Nat.lt_succ_of_lt (watched.issued number old)
  · exact Multiset.mem_cons_of_mem (watched.waiters key waiter member)
  · rcases List.mem_append.mp member with old | new
    · exact ⟨Multiset.mem_cons_of_mem (watched.timers timer old).1, (watched.timers timer old).2⟩
    · rw [List.mem_singleton] at new
      subst new
      exact ⟨Multiset.mem_cons_self _ _, later⟩
  · rcases Multiset.mem_cons.mp member with same | old
    · cases same
      exact .inl (List.mem_append_right _ (List.mem_singleton.mpr rfl))
    · exact (watched.clocks strands id until' old).imp_left (List.mem_append_left _)

theorem add_seat (watched : marks.Watched world) {key : Key} (fresh : after.fresh = world.fresh + 1)
    (joined : after.queue key = world.queue key ++ [⟨world.fresh, chain⟩])
    (others : ∀ other, other ≠ key → after.queue other = world.queue other)
    (timers : after.timers = world.timers) (now : after.now = world.now) :
    Watched ((chain, .seat key world.fresh) ::ₘ marks) after := by
  refine ⟨?_, fun number member => ?_, fun other waiter member => ?_, fun timer member => ?_,
    fun strands id due member => ?_⟩
  · rw [numbers_cons_seat, Multiset.nodup_cons]
    exact ⟨fun old => Nat.lt_irrefl _ (watched.issued _ old), watched.distinct⟩
  · rw [numbers_cons_seat, Multiset.mem_cons] at member
    rw [fresh]
    rcases member with rfl | old
    · exact Nat.lt_succ_self _
    · exact Nat.lt_succ_of_lt (watched.issued number old)
  · by_cases here : other = key
    · subst here
      rw [joined, List.mem_append, List.mem_singleton] at member
      rcases member with old | rfl
      · exact Multiset.mem_cons_of_mem (watched.waiters other waiter old)
      · exact Multiset.mem_cons_self _ _
    · rw [others other here] at member
      exact Multiset.mem_cons_of_mem (watched.waiters other waiter member)
  · rw [timers] at member
    have known := watched.timers timer member
    exact ⟨Multiset.mem_cons_of_mem known.1, now ▸ known.2⟩
  · rw [timers, now]
    exact watched.clocks strands id due (by simpa using member)

end Watched

end Marks

end Blueprint
