import Blueprint.Proofs.Watched
/-! What each operation of the registry, the clock and the run queue does to those who wait. -/

namespace Blueprint

namespace Registry

variable {registry : Registry} {key : Key}

theorem release_queue : (registry.release key).1 = (registry.queue key).take 1 ∧
    ∀ other, (registry.release key).2.queue other =
      if other = key then (registry.queue key).drop 1 else registry.queue other := by
  cases waiting : registry.queue key with
  | nil =>
    have released : registry.release key =
        ([], registry.modify key fun entry => { entry with gate := .idle }) := by
      rw [release, show ((registry.entry? key).map Entry.queue).getD [] = [] from waiting]
    rw [released]
    refine ⟨rfl, fun other => ?_⟩
    have left : (registry.modify key fun entry => { entry with gate := .idle }).queue other =
        registry.queue other := queue_modify_kept (fun entry => { entry with gate := .idle }) (fun _ => rfl) other
    dsimp only
    rw [left]
    split
    next same => rw [same, waiting, List.drop_nil]
    next => rfl
  | cons next rest =>
    have released : registry.release key = ([next], registry.modify key fun entry =>
        { entry with gate := .granted next.ticket, queue := rest }) := by
      rw [release, show ((registry.entry? key).map Entry.queue).getD [] = next :: rest from waiting]
    rw [released]
    refine ⟨rfl, fun other => ?_⟩
    obtain ⟨entry, found⟩ : ∃ entry, registry.entry? key = some entry := by
      cases found : registry.entry? key with
      | none => simp [queue, found] at waiting
      | some entry => exact ⟨entry, rfl⟩
    dsimp only
    split
    next same => simp [same, queue, entry?_modify_self, found]
    next different => exact queue_modify_other _ different

theorem settle_queue (stored : Stored) : (registry.settle key stored).1 = registry.queue key ∧
    ∀ other, (registry.settle key stored).2.queue other = if other = key then [] else registry.queue other := by
  refine ⟨rfl, fun other => ?_⟩
  split
  next same =>
    subst same
    exact queue_modify _ (fun _ => []) rfl fun _ => rfl
  next different => exact queue_modify_other _ different

theorem withdraw_queue (ticket : Nat) :
    (registry.withdraw key ticket).1 ⊆ registry.queue key ∧
    (∀ other, (registry.withdraw key ticket).2.queue other ⊆ registry.queue other) ∧
    ∀ other, ∀ waiter ∈ registry.queue other, waiter.ticket ≠ ticket →
      waiter ∈ (registry.withdraw key ticket).2.queue other ∨ waiter ∈ (registry.withdraw key ticket).1 := by
  unfold withdraw
  split
  · obtain ⟨popped, left⟩ := @release_queue registry key
    refine ⟨popped ▸ List.take_subset _ _, fun other => ?_, fun other waiter member _ => ?_⟩
    · rw [left]
      split
      next same => exact same ▸ List.drop_subset _ _
      next => exact List.Subset.refl _
    · rw [left, popped]
      split
      next same =>
        rw [same, ← List.take_append_drop 1 (registry.queue key), List.mem_append] at member
        exact member.symm
      next => exact .inl member
  · have left : ∀ other, (registry.modify key fun entry =>
        { entry with queue := entry.queue.filter fun waiter => waiter.ticket ≠ ticket }).queue other =
          if other = key then (registry.queue key).filter fun waiter => waiter.ticket ≠ ticket
          else registry.queue other := by
      intro other
      split
      next same =>
        subst same
        exact queue_modify _ (fun queue => queue.filter fun waiter => waiter.ticket ≠ ticket) rfl fun _ => rfl
      next different => exact queue_modify_other _ different
    refine ⟨List.nil_subset _, fun other => ?_, fun other waiter member different => .inl ?_⟩
    · rw [left]
      split
      next same => exact same ▸ List.filter_subset_self _
      next => exact List.Subset.refl _
    · rw [left]
      split
      next same => exact List.mem_filter.mpr ⟨same ▸ member, by simpa using different⟩
      next => exact member

theorem unlink_queue (owner : Option Key) (target other : Key) :
    (registry.unlink owner target).queue other = registry.queue other :=
  queue_congr (by rw [unlink_entries]) other

theorem link_queue {linked : Registry} {owner : Option Key} (accepted : registry.link owner key = .ok linked)
    (other : Key) : linked.queue other = registry.queue other :=
  queue_congr (link_entries accepted) other

theorem beginTurn_queue (other : Key) : (registry.beginTurn key).queue other = registry.queue other :=
  queue_modify_kept (fun entry => { entry with gate := .held }) (fun _ => rfl) other

/-- A fetch that begins takes a place at the end of one queue, or leaves all queues alone. -/
inductive Joins (registry : Registry) (key : Key) (waiter : Waiter) : Arrival × Registry → Prop where
  | queued {payload : Payload} {after : Registry} (joined : after.queue key = registry.queue key ++ [waiter])
      (others : ∀ other, other ≠ key → after.queue other = registry.queue other) :
      Joins registry key waiter (.queued payload, after)
  | passed {arrival : Arrival} {after : Registry} (served : ∀ payload, arrival ≠ .queued payload)
      (same : ∀ other, after.queue other = registry.queue other) : Joins registry key waiter (arrival, after)

theorem arrive_joins (key : Key) (type : TypeName) (owner : Option Key) (waiter : Waiter) :
    Joins registry key waiter (registry.arrive type key owner waiter) := by
  have arriving := arrive_arriving registry type key owner waiter
  generalize registry.arrive type key owner waiter = outcome at arriving ⊢
  cases arriving with
  | refused | found | mistyped => exact .passed (by simp) fun _ => rfl
  | turn _ accepted => exact .passed (by simp) fun other => (beginTurn_queue other).trans (link_queue accepted other)
  | @queued payload gate queue linked present accepted =>
    refine .queued ?_ fun other different => (queue_modify_other _ different).trans (link_queue accepted other)
    have there : Registry.entry? linked key = some ⟨none, some payload, gate, queue⟩ := by
      rw [Registry.entry?, link_entries accepted]
      exact present
    rw [← link_queue accepted key, Registry.queue, entry?_modify_self, Registry.queue, there]
    rfl

theorem resume_queue (key : Key) (type : TypeName) (ticket : Nat) (other : Key) :
    (registry.resume type key ticket).2.queue other = registry.queue other := by
  unfold resume
  split
  · rfl
  · split <;> rfl
  · split
    · exact beginTurn_queue other
    · rfl

end Registry

/-- A change of the world that nobody who waits has to do with. -/
structure World.Still (before after : World) : Prop where
  ready : after.ready = before.ready
  timers : after.timers = before.timers
  now : after.now = before.now
  fresh : before.fresh ≤ after.fresh
  queues : ∀ key, after.queue key = before.queue key

namespace World.Still

variable {first second third : World}

theorem refl (world : World) : world.Still world := ⟨rfl, rfl, rfl, Nat.le_refl _, fun _ => rfl⟩

theorem trans (left : first.Still second) (right : second.Still third) : first.Still third :=
  ⟨right.ready.trans left.ready, right.timers.trans left.timers, right.now.trans left.now,
    left.fresh.trans right.fresh, fun key => (right.queues key).trans (left.queues key)⟩

theorem emit (world : World) (event : Event) : world.Still (world.emit event) :=
  ⟨rfl, rfl, rfl, Nat.le_refl _, fun _ => rfl⟩

theorem take (world : World) : world.Still world.take.2 := ⟨rfl, rfl, rfl, Nat.le_succ _, fun _ => rfl⟩

theorem count (world : World) (counter : Nat) : world.Still (world.count counter) :=
  ⟨rfl, rfl, rfl, Nat.le_refl _, fun _ => rfl⟩

theorem unlink (world : World) (owner : Option Key) (key : Key) : world.Still (world.unlink owner key) :=
  ⟨rfl, rfl, rfl, Nat.le_refl _, Registry.unlink_queue owner key⟩

end World.Still

namespace World.Minds

variable {marks rest : Marks} {world after : World}

/-- Nobody is left behind where nothing that is waited for happens and no strand is taken out. -/
theorem of_kept (ready : after.ready = world.ready) (timers : ∀ timer ∈ world.timers, timer ∈ after.timers)
    (queues : ∀ key, ∀ waiter ∈ world.queue key, waiter ∈ after.queue key) : world.Minds rest after := by
  rintro ⟨chain, mark⟩ _ awake stirred
  have before : mark.Stirred world chain := by
    cases mark with
    | idle => trivial
    | timer id due => exact fun set => stirred (timers _ set)
    | seat key ticket => exact fun set => stirred (queues key _ set)
    | fan id =>
      obtain ⟨position, queued⟩ := stirred
      exact ⟨position, ready ▸ queued⟩
  have called := awake before
  rwa [← ready] at called

theorem of_still (still : world.Still after) : world.Minds rest after :=
  of_kept still.ready (fun timer member => still.timers ▸ member)
    fun key waiter member => by rwa [still.queues]

/-- Changing what is queued to be run: strands that are taken out call nobody, and those that are put in
belong to collections outside. -/
theorem of_ready {ready : List Strand}
    (kept : ∀ strand ∈ world.ready, strand ∈ ready ∨ ∀ mark ∈ rest, mark.1.head? ≠ some strand)
    (outside : ∀ id position, .element id position ∈ ready →
      .element id position ∈ world.ready ∨ id ∉ rest.numbers) :
    world.Minds rest { world with ready } := by
  rintro ⟨chain, mark⟩ member awake stirred
  have before : mark.Stirred world chain := by
    cases mark with
    | idle => trivial
    | timer id due => exact stirred
    | seat key ticket => exact stirred
    | fan id =>
      obtain ⟨position, queued⟩ := stirred
      exact ⟨position, (outside id position queued).resolve_right
        fun foreign => foreign (Marks.number_of_fan member)⟩
  obtain ⟨strand, queued, same⟩ := awake before
  exact ⟨strand, (kept strand queued).resolve_right fun silent => silent _ member same, same⟩

/-- Strands of a collection that is not among the marks call none of them. -/
theorem of_foreign (headed : rest.Headed) {id : Nat} (foreign : id ∉ rest.numbers) {ready : List Strand}
    (fewer : ∀ strand ∈ ready, strand ∈ world.ready)
    (kept : ∀ strand ∈ world.ready, strand ∈ ready ∨ ∃ position, strand = .element id position) :
    world.Minds rest { world with ready } := by
  refine of_ready (fun strand queued => ?_) fun other position queued => .inl (fewer _ queued)
  rcases kept strand queued with left | ⟨position, rfl⟩
  · exact .inl left
  · refine .inr fun mark member same => foreign ?_
    obtain ⟨outer, inside⟩ : ∃ outer, mark.1 = .element id position :: outer := by
      cases shape : mark.1 with
      | nil => rw [shape] at same; cases same
      | cons first outer =>
        rw [shape] at same
        exact ⟨outer, by rw [Option.some.inj same]⟩
    have rooted := headed mark member
    rw [inside] at rooted
    exact Marks.number_of_fan rooted

theorem forget (headed : rest.Headed) {id : Nat} (foreign : id ∉ rest.numbers) :
    world.Minds rest (world.forget id) := by
  refine of_foreign headed foreign (fun strand => List.mem_of_mem_filter) fun strand queued => ?_
  by_cases own : strand.isElementOf id = true
  · cases strand with
    | operation number => cases own
    | element other position =>
      simp only [Strand.isElementOf, beq_iff_eq] at own
      exact .inr ⟨position, by rw [own]⟩
  · exact .inl (List.mem_filter.mpr ⟨queued, by simpa using own⟩)

theorem erase (headed : rest.Headed) {id : Nat} (foreign : id ∉ rest.numbers) (position : Nat) :
    world.Minds rest { world with ready := world.ready.erase (.element id position) } := by
  refine of_foreign headed foreign (fun strand => List.mem_of_mem_erase) fun strand queued => ?_
  by_cases same : strand = .element id position
  · exact .inr ⟨position, same⟩
  · exact .inl ((List.mem_erase_of_ne same).mpr queued)

theorem dropTimer {id : Nat} (foreign : id ∉ rest.numbers) : world.Minds rest (world.dropTimer id) := by
  rintro ⟨chain, mark⟩ member awake stirred
  refine awake ?_
  cases mark with
  | idle => trivial
  | seat key ticket => exact stirred
  | fan other => exact stirred
  | timer other due =>
    refine fun set => stirred (List.mem_filter.mpr ⟨set, ?_⟩)
    have different : other ≠ id := fun same => foreign (same ▸ Marks.number_of_timer member)
    simpa using different

/-- Waking a chain that the marks agree with. -/
theorem wake (headed : rest.Headed) {chain : List Strand} (suit : rest.Suit chain) :
    world.Minds rest (world.wake chain) :=
  of_woken [chain] rfl (fun _ _ _ _ set => .inl set) (fun _ _ _ _ set => .inl set)
    (fun other member => by rw [List.mem_singleton.mp member]; exact suit) fun _ => headed.ne_nil

/-- The registry takes waiters out of their queues, and they are woken. -/
theorem of_popped (watched : marks.Watched world) (headed : marks.Headed) (below : rest ≤ marks)
    {registry : Registry} {waiters : List Waiter}
    (among : ∀ waiter ∈ waiters, ∃ key, waiter ∈ world.queue key)
    (kept : ∀ key ticket chain, (chain, .seat key ticket) ∈ rest → ⟨ticket, chain⟩ ∈ world.queue key →
      ⟨ticket, chain⟩ ∈ registry.queue key ∨ ⟨ticket, chain⟩ ∈ waiters) :
    world.Minds rest ({ world with registry }.wakeAll waiters) := by
  rw [World.wakeAll_eq]
  refine of_woken (waiters.map Waiter.strands) rfl (fun _ _ _ _ set => .inl set)
    (fun key ticket chain member set => ?_) (fun chain listed => ?_)
    fun mark member => headed.ne_nil (Multiset.mem_of_le below member)
  · exact (kept key ticket chain member set).imp_right fun popped => List.mem_map.mpr ⟨_, popped, rfl⟩
  · obtain ⟨waiter, popped, rfl⟩ := List.mem_map.mp listed
    obtain ⟨key, queued⟩ := among waiter popped
    have suit := watched.suit headed (headed _ (watched.waiters key waiter queued))
    exact fun id position outer inside strands member =>
      suit id position outer inside strands (Multiset.mem_of_le below member)

end World.Minds

namespace Marks.Watched

variable {marks rest : Marks} {world : World}

theorem of_popped (watched : marks.Watched world) {registry : Registry} {waiters : List Waiter}
    (fewer : ∀ key, registry.queue key ⊆ world.queue key) :
    marks.Watched ({ world with registry }.wakeAll waiters) := by
  rw [World.wakeAll_eq]
  exact watched.fewer (Nat.le_refl _) (fun key _ member => fewer key member) rfl rfl

theorem still {after : World} (watched : marks.Watched world) (still : world.Still after) :
    marks.Watched after :=
  watched.fewer still.fresh (fun key waiter member => by rwa [still.queues] at member) still.timers still.now

theorem unlink (watched : marks.Watched world) (owner : Option Key) (key : Key) :
    marks.Watched (world.unlink owner key) :=
  watched.still (.unlink world owner key)

theorem release (watched : marks.Watched world) (key : Key) : marks.Watched (world.release key) := by
  change marks.Watched ({ world with registry := (world.registry.release key).2 }.wakeAll
    (world.registry.release key).1)
  refine watched.of_popped fun other => ?_
  rw [Registry.release_queue.2]
  split
  next same => exact same ▸ List.drop_subset _ _
  next => exact List.Subset.refl _

theorem settle (watched : marks.Watched world) (key : Key) (stored : Stored) :
    marks.Watched (world.settle key stored) := by
  change marks.Watched ({ world with registry := (world.registry.settle key stored).2 }.wakeAll
    (world.registry.settle key stored).1)
  refine watched.of_popped fun other => ?_
  rw [(Registry.settle_queue stored).2]
  split
  · exact List.nil_subset _
  · exact List.Subset.refl _

theorem withdraw (watched : marks.Watched world) (key : Key) (ticket : Nat) :
    marks.Watched (world.withdraw key ticket) :=
  watched.of_popped (Registry.withdraw_queue ticket).2.1

end Marks.Watched

namespace World.Minds

variable {marks rest : Marks} {world : World}

theorem unlink (owner : Option Key) (key : Key) : world.Minds rest (world.unlink owner key) :=
  of_still (.unlink world owner key)

theorem release (watched : marks.Watched world) (headed : marks.Headed) (key : Key) :
    world.Minds marks (world.release key) := by
  obtain ⟨popped, left⟩ := @Registry.release_queue world.registry key
  change world.Minds marks ({ world with registry := (world.registry.release key).2 }.wakeAll
    (world.registry.release key).1)
  refine of_popped watched headed (le_refl _) (fun waiter member => ?_) fun other ticket chain _ queued => ?_
  · rw [popped] at member
    exact ⟨key, List.mem_of_mem_take member⟩
  · rw [left, popped]
    split
    next same =>
      rw [World.queue, same, ← List.take_append_drop 1 (world.registry.queue key), List.mem_append] at queued
      exact queued.symm
    next => exact .inl queued

theorem settle (watched : marks.Watched world) (headed : marks.Headed) (key : Key) (stored : Stored) :
    world.Minds marks (world.settle key stored) := by
  obtain ⟨popped, left⟩ := @Registry.settle_queue world.registry key stored
  change world.Minds marks ({ world with registry := (world.registry.settle key stored).2 }.wakeAll
    (world.registry.settle key stored).1)
  refine of_popped watched headed (le_refl _) (fun waiter member => ⟨key, ?_⟩)
    fun other ticket chain _ queued => ?_
  · rwa [popped] at member
  rw [left, popped]
  split
  next same => exact .inr (same ▸ queued)
  next => exact .inl queued

theorem withdraw (watched : marks.Watched world) (headed : marks.Headed) (below : rest ≤ marks) (key : Key)
    {ticket : Nat} (foreign : ticket ∉ rest.numbers) : world.Minds rest (world.withdraw key ticket) := by
  obtain ⟨popped, _, kept⟩ := @Registry.withdraw_queue world.registry key ticket
  refine of_popped watched headed below (fun waiter member => ⟨key, popped member⟩)
    fun other number chain member queued => kept other _ queued fun same => foreign ?_
  exact same ▸ Marks.number_of_seat member

end World.Minds

end Blueprint
