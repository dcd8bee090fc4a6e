import Blueprint.Proofs.Alone.Unstirred
import Blueprint.Proofs.Guise.Alone
/-! The same resolution with a limit of time and without one. Under a limit there is one timer more, which belongs to
the operation as a whole. Until it rings the two go on in step, even where it rings together with other timers. -/

namespace Blueprint

namespace Strand

variable {strand : Strand} {ready chain : List Strand}

/-- A chain of strands that comes to its end with a strand, if it runs through it. -/
def Outermost (strand : Strand) (chain : List Strand) : Prop :=
  ∀ outer, (strand :: outer) <:+ chain → outer = []

/-- What a chain wakes besides its outermost strand does not depend on whether that is queued. -/
theorem filter_wake (ready : List Strand) (last : strand.Outermost chain) :
    (wake ready chain).filter (· ≠ strand) = wake (ready.filter (· ≠ strand)) (chain.filter (· ≠ strand)) := by
  induction chain generalizing ready with
  | nil => rfl
  | cons first outer ih =>
    have later : strand.Outermost outer := fun rest inside => last rest (inside.trans (List.suffix_cons first outer))
    by_cases same : first = strand
    · subst same
      obtain rfl : outer = [] := last outer (List.suffix_refl _)
      by_cases queued : first ∈ ready <;> simp [wake, queued]
    · have kept : first ∈ ready.filter (· ≠ strand) ↔ first ∈ ready := by simp [same]
      rw [List.filter_cons_of_pos (by simpa using same), wake, wake]
      simp only [kept]
      split
      · rfl
      · rw [ih _ later, List.filter_append, List.filter_cons_of_pos (by simpa using same), List.filter_nil]

theorem count_wake_le (once : ready.count strand ≤ 1) (chain : List Strand) : (wake ready chain).count strand ≤ 1 := by
  induction chain generalizing ready with
  | nil => exact once
  | cons first outer ih =>
    rw [wake]
    split
    · exact once
    next fresh =>
      refine ih ?_
      rw [List.count_append, List.count_singleton]
      split
      next same =>
        have gone : ready.count strand = 0 := List.count_eq_zero.mpr (by simpa [← eq_of_beq same] using fresh)
        omega
      next => omega

theorem erase_eq_filter (once : ready.count strand ≤ 1) : ready.erase strand = ready.filter (· ≠ strand) := by
  induction ready with
  | nil => rfl
  | cons first rest ih =>
    by_cases same : first = strand
    · subst same
      rw [List.count_cons_self] at once
      have gone : first ∉ rest := List.count_eq_zero.mp (by omega)
      rw [List.erase_cons_head, List.filter_cons_of_neg (by simp), List.filter_eq_self.mpr fun other member => ?_]
      exact decide_eq_true fun equal => gone (equal ▸ member)
    · rw [List.count_cons_of_ne same] at once
      rw [List.erase_cons_tail (by simpa using same), List.filter_cons_of_pos (by simpa using same), ih once]

/-- A strand that was not queued and is taken out again has made no difference to the others. -/
theorem erase_wakeEach {chains : List (List Strand)} (absent : strand ∉ ready)
    (last : ∀ chain ∈ chains, strand.Outermost chain) :
    (wakeEach ready chains).erase strand = wakeEach ready (chains.map (List.filter (· ≠ strand))) := by
  have others : ∀ (chains : List (List Strand)) (ready : List Strand), (∀ chain ∈ chains, strand.Outermost chain) →
      ready.count strand ≤ 1 → (wakeEach ready chains).erase strand =
        wakeEach (ready.filter (· ≠ strand)) (chains.map (List.filter (· ≠ strand))) := by
    intro chains
    induction chains with
    | nil => exact fun ready _ once => erase_eq_filter once
    | cons chain rest ih =>
      intro ready last once
      have first := filter_wake ready (last chain List.mem_cons_self)
      simp only [wakeEach, List.foldl_cons, List.map_cons] at ih ⊢
      rw [ih _ (fun other member => last other (List.mem_cons_of_mem _ member)) (count_wake_le once chain), first]
  have kept : ready.filter (· ≠ strand) = ready :=
    List.filter_eq_self.mpr fun other member => decide_eq_true fun same : other = strand => absent (same ▸ member)
  rw [others chains ready last (by rw [List.count_eq_zero.mpr absent]; omega), kept]

/-- Who wakes nobody may be left out. -/
theorem wakeEach_filter {α : Type} (items : List α) (chain : α → List Strand) (matters : α → Bool)
    (idle : ∀ item ∈ items, matters item = false → chain item = []) (ready : List Strand) :
    wakeEach ready ((items.filter matters).map chain) = wakeEach ready (items.map chain) := by
  induction items generalizing ready with
  | nil => rfl
  | cons item rest ih =>
    have later := fun ready => ih (fun other member => idle other (List.mem_cons_of_mem _ member)) ready
    simp only [wakeEach, List.map_cons, List.foldl_cons] at later ⊢
    cases known : matters item with
    | true =>
      rw [List.filter_cons_of_pos known]
      exact later _
    | false =>
      rw [List.filter_cons_of_neg (by simp [known]), idle item List.mem_cons_self known]
      exact later _

end Strand

/-- A chain among marks ends where it comes to an operation. -/
theorem Marks.Headed.outermost {marks : Marks} (headed : marks.Headed) {chain : List Strand}
    (rooted : marks.Rooted chain) (id : Nat) : (Strand.operation id).Outermost chain := by
  induction chain with
  | nil => exact rooted.elim
  | cons strand rest ih =>
    intro outer inside
    rcases List.suffix_cons_iff.mp inside with same | later
    · cases same
      exact rooted
    · cases strand with
      | operation number =>
        rw [show rest = [] from rooted] at later
        simp at later
      | element other place => exact ih (headed _ rooted) outer later

/-- The guise of a resolution under a limit of time, once its alarm is set: the alarm has a number of its own. -/
def Guise.limited (limit alarm : Nat) : Guise where
  number number := if number < alarm then number else number + 1
  config setting := { setting with deadline := some limit }
  own id := id ≠ alarm
  told := Eq
  injective {first second} same := by
    split at same <;> split at same <;> omega
  own_number id := by
    rw [decide_eq_true_eq]
    split <;> omega
  concurrency _ := rfl
  tells := @eq_tells
  spans _ _ _ same := by rw [same]

namespace Operation

/-- An operation without a limit of time and the same one under a limit, whose alarm is set. -/
structure Limited (limit alarm : Nat) (free bound : Operation) (one two : World) : Prop where
  endless : free.deadline = none
  same : bound = { (Guise.limited limit alarm).operation free with deadline := some ⟨limit, limit, some alarm⟩ }
  worlds : World.Alike (.limited limit alarm) 1 one two
  older : alarm ≤ one.fresh

namespace Limited

variable {limit alarm : Nat} {free bound : Operation} {one two : World}

theorem id_eq (limited : Limited limit alarm free bound one two) : bound.id = free.id := by
  rw [limited.same]
  rfl

end Limited

end Operation

namespace System

variable {contents : Contents} {call other : Call} {limit alarm : Nat} {free bound : Operation} {one two : World}

theorem nextDue?_eq_some_iff {world : World} {due : Nat} : world.nextDue? = some due ↔
    (∃ timer ∈ world.timers, timer.due = due) ∧ ∀ timer ∈ world.timers, due ≤ timer.due := by
  refine ⟨nextDue?_eq_some, fun ⟨⟨timer, listed, same⟩, least⟩ => ?_⟩
  refine List.min?_eq_some_iff.mpr ⟨List.mem_map.mpr ⟨timer, listed, same⟩, fun _ member => ?_⟩
  obtain ⟨_, inside, rfl⟩ := List.mem_map.mp member
  exact least _ inside

/-- All that is known of the timers of an operation under a limit that rests, alone, before its alarm rings. -/
structure Alarmed (limit alarm : Nat) (bound : Operation) (world : World) : Prop where
  set : ⟨alarm, limit, [.operation 0]⟩ ∈ world.timers
  only : ∀ timer ∈ world.timers, timer.id = alarm → timer = ⟨alarm, limit, [.operation 0]⟩
  apart : ∀ chain id due, (chain, .timer id due) ∈ bound.task.marks [.operation 0] → id ≠ alarm

/-- The sleepers of an operation that is alone lie in it. -/
theorem Regular.outermost {phase : Phase} {world : World} (regular : (solo contents call phase world).Regular)
    {timer : Timer} (member : timer ∈ world.timers) : (Strand.operation 0).Outermost timer.strands :=
  have headed := System.marks_headed (solo contents call phase world)
  headed.outermost (headed _ (regular.alert.watched.timers timer member).1) 0

theorem Regular.alarmed {length : Nat} (regular : (solo contents call (.resting bound) two).Regular)
    (deadline : bound.deadline = some ⟨length, limit, some alarm⟩) (early : two.now < limit) :
    Alarmed limit alarm bound two := by
  have alert := regular.alert.each 0 _ rfl
  have named : bound.id = 0 := alert.1
  have watched := regular.alert.watched
  have marks : (solo contents call (.resting bound) two).marks =
      bound.task.marks [.operation 0] + {([.operation 0], .timer alarm limit)} := by
    simp [System.marks, solo, Phase.marks, Operation.alarm, deadline, named]
  rw [marks] at watched
  have own : ([.operation 0], .timer alarm limit) ∈
      bound.task.marks [.operation 0] + {([.operation 0], .timer alarm limit)} :=
    Multiset.mem_add.mpr (.inr (Multiset.mem_singleton_self _))
  refine ⟨(watched.clocks _ _ _ own).resolve_right (Nat.not_le.mpr early), fun timer member same => ?_,
    fun chain id due member equal => ?_⟩
  · obtain ⟨id, due, strands⟩ := timer
    have mark := Marks.eq_of_number watched.distinct (watched.timers _ member).1 own rfl (congrArg some same.symm)
    cases mark
    rfl
  · have distinct := watched.distinct
    rw [Marks.numbers_add] at distinct
    refine Multiset.disjoint_left.mp (Multiset.nodup_add.mp distinct).2.2 (Marks.number_of_timer member) ?_
    exact equal ▸ Marks.number_of_timer (Multiset.mem_singleton_self _)

end System

namespace World

@[simp] theorem advanceTo_now (world : World) (time : Nat) : (world.advanceTo time).now = time := by
  rw [advanceTo_eq]

@[simp] theorem advanceTo_fresh (world : World) (time : Nat) : (world.advanceTo time).fresh = world.fresh := by
  rw [advanceTo_eq]

@[simp] theorem advanceTo_registry (world : World) (time : Nat) :
    (world.advanceTo time).registry = world.registry := by
  rw [advanceTo_eq]

/-- Where no timer is overdue, those that are due ring in the order in which they were set. -/
theorem fired_of_least {world : World} {time : Nat} (least : ∀ timer ∈ world.timers, time ≤ timer.due) :
    world.fired time = world.timers.filter fun timer => timer.due ≤ time := by
  refine List.mergeSort_of_pairwise (List.pairwise_of_forall_mem_list fun first one second two => ?_)
  have early : first.due ≤ time := of_decide_eq_true (List.mem_filter.mp one).2
  exact decide_eq_true (early.trans (least second (List.mem_filter.mp two).1))

namespace Alike

variable {guise : Guise} {lag time : Nat} {one two : World}

theorem timer_mem (alike : Alike guise lag one two) {timer : Timer} (member : timer ∈ one.timers) :
    guise.timer timer ∈ two.timers := by
  have inside : guise.timer timer ∈ two.timers.filter fun timer => guise.own timer.id :=
    alike.timers ▸ List.mem_map_of_mem member
  exact (List.mem_filter.mp inside).1

theorem timer_of_own (alike : Alike guise lag one two) {timer : Timer} (member : timer ∈ two.timers)
    (own : guise.own timer.id = true) : ∃ mine ∈ one.timers, guise.timer mine = timer :=
  List.mem_map.mp (alike.timers ▸ List.mem_filter.mpr ⟨member, own⟩)

/-- Timers that the first world does not have and that only the operation as a whole listens to may ring together
with the others. -/
theorem attended_advanceTo (alike : Alike guise lag one two) (first : ∀ timer ∈ one.timers, time ≤ timer.due)
    (second : ∀ timer ∈ two.timers, time ≤ timer.due)
    (foreign : ∀ timer ∈ two.timers, guise.own timer.id = false → timer.strands = [.operation 0])
    (silent : .operation 0 ∉ one.ready) (last : ∀ timer ∈ one.timers, (Strand.operation 0).Outermost timer.strands)
    (outermost : ∀ timer ∈ two.timers, (Strand.operation 0).Outermost timer.strands) :
    Alike guise lag (System.attended (one.advanceTo time) 0) (System.attended (two.advanceTo time) 0) := by
  have absent : .operation 0 ∉ two.ready := fun inside => silent ((alike.heard 0).mp inside)
  have shared : (two.fired time).filter (fun timer => guise.own timer.id) = (one.fired time).map guise.timer := by
    rw [fired_of_least first, fired_of_least second, List.filter_comm, alike.timers, List.filter_map]
    rfl
  have chain : ∀ timer : Timer, (guise.timer timer).strands.filter (· ≠ .operation 0) =
      (timer.strands.filter (· ≠ .operation 0)).map guise.strand := by
    intro timer
    rw [Guise.timer, List.filter_map]
    congr 1
    refine List.filter_congr fun strand _ => ?_
    cases strand <;> simp [Guise.strand]
  rw [System.attended, System.attended, advanceTo_eq, advanceTo_eq]
  refine { alike with now := rfl, timers := ?_, ready := ?_ }
  · dsimp only
    rw [List.filter_comm, alike.timers, List.filter_map]
    rfl
  · dsimp only
    have inner : ∀ chain ∈ (one.fired time).map Timer.strands, (Strand.operation 0).Outermost chain :=
      List.forall_mem_map.mpr fun timer member => last timer (mem_fired.mp member).1
    have outer : ∀ chain ∈ (two.fired time).map Timer.strands, (Strand.operation 0).Outermost chain :=
      List.forall_mem_map.mpr fun timer member => outermost timer (mem_fired.mp member).1
    rw [Strand.erase_wakeEach absent outer, Strand.erase_wakeEach silent inner, List.map_map, List.map_map,
      ← Strand.wakeEach_filter _ _ (fun timer => guise.own timer.id), shared, alike.ready, ← guise.wakeEach,
      List.map_map, List.map_map]
    · congr 1
      exact List.map_congr_left fun timer _ => chain timer
    · intro timer member notOwn
      rw [Function.comp_apply, foreign timer (mem_fired.mp member).1 notOwn]
      simp

end Alike

end World

namespace Operation.Limited

variable {contents : Contents} {call other : Call} {limit alarm : Nat} {free bound : Operation} {one two : World}

/-- Both are called at the same time, at the latest when the alarm rings; or it rings alone. -/
theorem called (limited : Limited limit alarm free bound one two)
    (regular : (System.solo contents call (.resting free) one).Regular)
    (watched : (System.solo contents other (.resting bound) two).Regular) (early : one.now < limit) :
    (∃ first second, free.called? one = some first ∧ bound.called? two = some second ∧
        Limited limit alarm free bound first second ∧ first.now ≤ limit) ∨
      .operation 0 ∉ two.ready ∧ bound.called? two = some (System.attended (two.advanceTo limit) 0) ∧
        (∀ timer ∈ one.timers, limit < timer.due) ∧ ∀ first, free.called? one = some first → limit < first.now := by
  have named : free.id = 0 := (regular.alert.each 0 _ rfl).1
  have worlds := limited.worlds
  have alarmed := watched.alarmed (by rw [limited.same]) (worlds.now ▸ early)
  have foreign : ∀ timer ∈ two.timers, (Guise.limited limit alarm).own timer.id = false →
      timer = ⟨alarm, limit, [.operation 0]⟩ := fun timer member notOwn =>
    alarmed.only timer member (by simpa [Guise.limited] using notOwn)
  unfold called?
  rw [limited.id_eq, named]
  simp only [worlds.heard]
  by_cases ready : .operation 0 ∈ one.ready
  · rw [if_pos ready, if_pos ready]
    exact .inl ⟨_, _, rfl, rfl, ⟨limited.endless, limited.same, worlds.erase (.operation 0), limited.older⟩, early.le⟩
  · rw [if_neg ready, if_neg ready]
    -- the timers of the second world are those of the first and the alarm
    have least : ∀ time, time ≤ limit → (∀ timer ∈ one.timers, time ≤ timer.due) →
        ∀ timer ∈ two.timers, time ≤ timer.due := by
      intro time bounded each timer member
      cases own : (Guise.limited limit alarm).own timer.id with
      | true =>
        obtain ⟨mine, listed, rfl⟩ := worlds.timer_of_own member own
        exact each mine listed
      | false => exact foreign timer member own ▸ bounded
    by_cases soon : ∃ due, one.nextDue? = some due ∧ due ≤ limit
    · obtain ⟨due, found, bounded⟩ := soon
      obtain ⟨⟨timer, listed, same⟩, each⟩ := System.nextDue?_eq_some found
      have second : two.nextDue? = some due :=
        System.nextDue?_eq_some_iff.mpr ⟨⟨_, worlds.timer_mem listed, same⟩, least due bounded each⟩
      rw [found, second]
      have later : World.Alike (.limited limit alarm) 1 (System.attended (one.advanceTo due) 0)
          (System.attended (two.advanceTo due) 0) :=
        worlds.attended_advanceTo each (least due bounded each)
          (fun timer member notOwn => by rw [foreign timer member notOwn]) ready (fun _ => regular.outermost)
          fun _ => watched.outermost
      refine .inl ⟨_, _, rfl, rfl, ⟨limited.endless, limited.same, later, ?_⟩, ?_⟩
      · simpa using limited.older
      · simpa using bounded
    · have late : ∀ timer ∈ one.timers, limit < timer.due := by
        intro timer member
        have listed : timer.due ∈ one.timers.map Timer.due := List.mem_map_of_mem member
        obtain ⟨due, found⟩ := Option.isSome_iff_exists.mp (List.isSome_min?_of_mem listed)
        have beyond : limit < due := Nat.lt_of_not_le fun bounded => soon ⟨due, found, bounded⟩
        exact beyond.trans_le ((System.nextDue?_eq_some found).2 timer member)
      have second : two.nextDue? = some limit :=
        System.nextDue?_eq_some_iff.mpr ⟨⟨_, alarmed.set, rfl⟩, least limit (Nat.le_refl _) fun timer member =>
          (late timer member).le⟩
      rw [second]
      refine .inr ⟨ready, rfl, late, fun first found => ?_⟩
      obtain ⟨due, next, rfl⟩ := Option.map_eq_some_iff.mp found
      obtain ⟨⟨timer, listed, rfl⟩, _⟩ := System.nextDue?_eq_some next
      simpa using late timer listed

end Operation.Limited

end Blueprint
