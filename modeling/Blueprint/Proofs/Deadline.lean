import Blueprint.Proofs.Alone.Alarm
import Blueprint.Proofs.Footprint
/-! A deadline cuts just those resolutions that are too slow. The resolution under a limit of time goes on in step with
the same one without a limit until its alarm rings. If it rings alone nothing has been called for and the resolution
still waits, so it is cut off there. -/

namespace Blueprint

open World (Onward)

/-- A length of time in whole milliseconds, as far as a word can tell. -/
def Duration.limit (duration : Duration) : Nat :=
  min duration.milliseconds wordMax

namespace Operation

variable {operation free bound rested : Operation} {world later one two between : World} {progress : Progress}
  {result : Except ResolveError Value}

theorem announce_onward (whole : Bool) (result : Except ResolveError Value) (world : World) :
    world.Onward (announce whole result world) := by
  unfold announce
  split
  · split <;> exact .emit _ _
  · exact .refl world

theorem close_onward (operation : Operation) (result : Except ResolveError Value) (world : World) :
    world.Onward (operation.close result world).2 := by
  rw [close_eq]
  refine Onward.trans ?_ (announce_onward _ _ _)
  unfold dismiss
  split
  · exact ⟨rfl, Nat.le_refl _⟩
  · exact .refl world

theorem conclude_onward (operation : Operation) (machine : Machine) (world : World) :
    world.Onward (operation.conclude machine world).2 := by
  unfold conclude
  split
  · unfold watch
    split
    · exact .refl world
    · split
      · exact (Onward.cancel _ world).trans (close_onward _ _ _)
      · split
        · exact .refl world
        · exact ⟨rfl, Nat.le_succ _⟩
  · exact close_onward _ _ _
  · exact .refl world

/-- Work that waits when its time is over is cut off. -/
theorem watch_overdue {length due : Nat} {timer : Option Nat}
    (deadline : operation.deadline = some ⟨length, due, timer⟩) (overdue : due ≤ world.now) :
    operation.watch world =
      operation.close (.error (.deadlineExceeded length)) (world.cancel operation.task) := by
  simp only [watch, deadline, if_pos overdue]

/-- A look takes no time. -/
theorem Sees.onward (sees : operation.Sees world progress later) : world.Onward later := by
  obtain ⟨fuel, machine, between, run, concludes⟩ := sees
  have ends := operation.conclude_onward machine between
  rw [concludes] at ends
  exact (Machine.run_onward run).trans ends

/-- An operation that waits and comes to a result is called in between. -/
theorem Comes.called (comes : operation.Comes world result later)
    (sees : operation.Sees world (.waiting rested) between) :
    ∃ next, rested.called? between = some next ∧ rested.Comes next result later := by
  cases comes with
  | done other => cases (sees.unique other).1
  | again other called rest =>
    obtain ⟨same, equal⟩ := sees.unique other
    cases same
    cases equal
    exact ⟨_, called, rest⟩

/-- What becomes of an operation without a limit of time and of the same one under a limit: both come to the same,
not later than that, or the second one is cut off there and the first one does not come to its end before. -/
inductive Decided (limit : Nat) (guise : Guise) (free bound : Operation) (one two : World) : Prop where
  | inTime {result : Except ResolveError Value} {first second : World} (comes : free.Comes one result first)
      (again : bound.Comes two result second) (early : first.now ≤ limit)
      (registry : Registry.Alike guise first.registry second.registry) (now : second.now = first.now) :
      Decided limit guise free bound one two
  | cut {second : World} (cut : bound.Comes two (.error (.deadlineExceeded limit)) second) (now : second.now = limit)
      (late : ∀ result first, free.Comes one result first → limit ≤ first.now) : Decided limit guise free bound one two

theorem Decided.again {limit : Nat} {guise : Guise} {waits : Operation} {last first second : World}
    (sees : free.Sees one (.waiting rested) between) (called : rested.called? between = some first)
    (looks : bound.Sees two (.waiting waits) last) (recalled : waits.called? last = some second)
    (decided : Decided limit guise rested waits first second) : Decided limit guise free bound one two := by
  cases decided with
  | inTime comes again early registry now =>
    exact .inTime (.again sees called comes) (.again looks recalled again) early registry now
  | cut cut now late =>
    refine .cut (.again looks recalled cut) now fun result after comes => ?_
    obtain ⟨next, same, rest⟩ := comes.called sees
    cases called.symm.trans same
    exact late result after rest

end Operation

namespace World.Alike

variable {guise : Guise} {lag : Nat} {one two : World}

theorem drop_foreign {id : Nat} (alike : Alike guise lag one two) (foreign : guise.own id = false) :
    Alike guise lag one (two.dropTimer id) := by
  refine { alike with timers := ?_ }
  rw [← alike.timers, World.dropTimer, List.filter_filter]
  refine List.filter_congr fun timer _ => ?_
  cases own : guise.own timer.id with
  | true =>
    have apart : timer.id ≠ id := fun same => by simp [same, foreign] at own
    simp [apart]
  | false => simp

/-- A look without a limit of time and one under a limit: both come to the same result, or the task waits in both. -/
theorem sees_limited {free bound : Operation} {deadline : Deadline} {progress : Operation.Progress} {between : World}
    (alike : Alike guise lag one two) (endless : free.deadline = none)
    (same : bound = { guise.operation free with deadline := some deadline })
    (foreign : ∀ timer, deadline.timer = some timer → guise.own timer = false)
    (sees : free.Sees one progress between)
    (numbered : ∀ number, one.fresh ≤ number → number < between.fresh → guise.number number = number + lag) :
    (∃ result last, progress = .over result ∧ bound.Sees two (.over result) last ∧ Alike guise lag between last) ∨
      ∃ task last, progress = .waiting { free with task } ∧ Alike guise lag between last ∧
        bound.Sees two ({ bound with task := guise.task task }.watch last).1
          ({ bound with task := guise.task task }.watch last).2 := by
  obtain ⟨fuel, machine, final, run, concludes⟩ := sees
  obtain ⟨id, task, limit, whole⟩ := free
  cases endless
  subst same
  have until' : final.fresh ≤ between.fresh := by
    have ends := (Operation.conclude_onward ⟨id, task, none, whole⟩ machine final).fresh
    rwa [concludes] at ends
  obtain ⟨last, looks, worlds⟩ := Machine.run_reflects alike run fun number lower upper =>
    numbered number lower (upper.trans_le until')
  have ended := Machine.step_of_run run
  obtain ⟨number, control, layers⟩ := machine
  cases layers with
  | cons => cases control with
    | poll | rest => cases ended
    | finish result => cases result <;> cases ended
  | nil =>
    cases control with
    | poll => cases ended
    | rest task =>
      cases concludes
      exact .inr ⟨task, last, rfl, worlds, fuel, _, last, looks, rfl⟩
    | finish result =>
      cases concludes
      refine .inl ⟨result, _, rfl, ⟨fuel, _, last, looks, rfl⟩, World.Alike.announce ?_ whole result⟩
      cases set : deadline.timer with
      | none => simpa [Operation.dismiss, set] using worlds
      | some timer => simpa [Operation.dismiss, set] using worlds.drop_foreign (foreign timer set)

end World.Alike

namespace System

open Operation (Limited Decided)

variable {contents : Contents} {call other : Call} {limit alarm lag : Nat} {free bound rested waits : Operation}
  {one two between last : World}

/-- An operation does not come to its end before it is looked at. -/
theorem Regular.comes_now {operation : Operation} {world later : World} {result : Except ResolveError Value}
    (regular : (solo contents call (.looking operation (.start 0 operation.task)) world).Regular)
    (comes : operation.Comes world result later) : world.now ≤ later.now := by
  induction comes with
  | done sees => exact sees.onward.now.ge
  | @again _ _ _ last _ _ _ sees called _ ih =>
    have rests := (regular.run_of_sees sees).1.regular regular
    refine le_trans ?_ (ih ((rests.resumes called).1.regular rests))
    rcases called_cases called (rests.alert.each 0 _ rfl).1 with ⟨_, rfl⟩ | ⟨due, found, rfl⟩
    · exact sees.onward.now.ge
    · obtain ⟨⟨timer, listed, rfl⟩, _⟩ := nextDue?_eq_some found
      have ahead : last.now < timer.due := (rests.alert.watched.timers timer listed).2
      rw [← sees.onward.now]
      simpa [attended] using ahead.le

/-- What waits under a limit of time once the alarm is set goes on in step with what waits without one, or it is cut
off when the alarm rings alone. -/
theorem Regular.resting_decided (regular : (solo contents call (.resting rested) between).Regular)
    (watched : (solo contents other (.resting waits) last).Regular) (filled : waits.task.Filled)
    (limited : Limited limit alarm rested waits between last) (early : between.now < limit)
    (sees : free.Sees one (.waiting rested) between) (looks : bound.Sees two (.waiting waits) last)
    (later : ∀ first second, rested.called? between = some first → waits.called? last = some second →
      Limited limit alarm rested waits first second → first.now ≤ limit →
      Decided limit (.limited limit alarm) rested waits first second) :
    Decided limit (.limited limit alarm) free bound one two := by
  rcases limited.called regular watched early with
    ⟨first, second, called, recalled, goes, bounded⟩ | ⟨silent, recalled, late, beyond⟩
  · exact (later first second called recalled goes bounded).again sees called looks recalled
  · have alarmed := watched.alarmed (by rw [limited.same]) (limited.worlds.now ▸ early)
    have alone : ∀ timer ∈ last.timers, timer.due ≤ limit → timer = ⟨alarm, limit, [.operation 0]⟩ := by
      intro timer member due
      refine alarmed.only timer member (by_contra fun apart => ?_)
      obtain ⟨mine, listed, rfl⟩ := limited.worlds.timer_of_own member (by simpa [Guise.limited] using apart)
      exact absurd due (Nat.not_le.mpr (late mine listed))
    have ready : (attended (last.advanceTo limit) 0).ready = last.ready := by
      rw [attended, World.advanceTo_eq]
      dsimp only
      rw [Strand.erase_wakeEach silent (List.forall_mem_map.mpr fun timer member =>
          watched.outermost (World.mem_fired.mp member).1), List.map_map,
        ← Strand.wakeEach_filter _ _ (fun _ => false) fun timer member _ => ?_, List.filter_false]
      · rfl
      · obtain ⟨listed, due⟩ := World.mem_fired.mp member
        rw [alone timer listed due]
        simp
    obtain ⟨fuel, run⟩ := @Regular.look_unstirred contents other waits last (attended (last.advanceTo limit) 0)
      watched filled silent (by simp [attended]) ready fun chain id due member set => by
        by_contra past
        have rings := alone _ set (by simpa [attended] using past)
        exact alarmed.apart chain id due member (congrArg Timer.id rings)
    have named : waits.id = 0 := (watched.alert.each 0 _ rfl).1
    have overdue : waits.conclude ⟨0, .rest waits.task, []⟩ (attended (last.advanceTo limit) 0) =
        waits.close (.error (.deadlineExceeded limit)) ((attended (last.advanceTo limit) 0).cancel waits.task) :=
      Operation.watch_overdue (by rw [limited.same]) (by simp [attended])
    have ends : waits.Sees (attended (last.advanceTo limit) 0) (.over (.error (.deadlineExceeded limit)))
        (waits.close (.error (.deadlineExceeded limit)) ((attended (last.advanceTo limit) 0).cancel waits.task)).2 :=
      ⟨fuel, _, _, by rw [named]; exact run, overdue⟩
    have now := ends.onward.now.trans (by simp [attended] : (attended (last.advanceTo limit) 0).now = limit)
    refine .cut (.again looks recalled (.done ends)) now fun result after comes => ?_
    obtain ⟨first, called, rest⟩ := comes.called sees
    exact (beyond first called).le.trans (((regular.resumes called).1.regular regular).comes_now rest)

/-- A look without a limit of time and one under a limit, and what follows. -/
theorem Regular.look_decided {timer : Option Nat}
    (regular : (solo contents call (.looking free (.start 0 free.task)) one).Regular)
    (watched : (solo contents other (.looking bound (.start 0 bound.task)) two).Regular)
    (worlds : World.Alike (.limited limit alarm) lag one two) (endless : free.deadline = none)
    (same : bound = { (Guise.limited limit alarm).operation free with deadline := some ⟨limit, limit, timer⟩ })
    (foreign : ∀ number, timer = some number → (Guise.limited limit alarm).own number = false)
    {progress : Operation.Progress} (sees : free.Sees one progress between)
    (numbered : ∀ number, one.fresh ≤ number → number < between.fresh →
      (Guise.limited limit alarm).number number = number + lag)
    (bounded : one.now ≤ limit) (filled : bound.task.Filled)
    (rests : ∀ task last, World.Alike (.limited limit alarm) lag between last → last.now < limit →
      ∃ waits after, { bound with task := (Guise.limited limit alarm).task task }.watch last = (.waiting waits, after) ∧
        Limited limit alarm { free with task } waits between after)
    (later : ∀ {rested waits : Operation} {last first second : World}, bound.Sees two (.waiting waits) last →
      waits.called? last = some second →
      (solo contents call (.looking rested (.start 0 rested.task)) first).Regular →
      (solo contents other (.looking waits (.start 0 waits.task)) second).Regular →
      Limited limit alarm rested waits first second → first.now ≤ limit → waits.task.Filled →
      Decided limit (.limited limit alarm) rested waits first second) :
    Decided limit (.limited limit alarm) free bound one two := by
  rcases worlds.sees_limited endless same foreign sees numbered with
    ⟨result, last, rfl, looks, after⟩ | ⟨task, last, rfl, after, looks⟩
  · exact .inTime (.done sees) (.done looks) (sees.onward.now ▸ bounded) after.registry after.now
  · have clock : last.now = one.now := after.now.trans sees.onward.now
    by_cases overdue : limit ≤ last.now
    · rw [Operation.watch_overdue (by rw [same]) overdue] at looks
      refine .cut (.done looks) ?_ fun result first comes => ?_
      · have still := looks.onward.now.trans worlds.now
        omega
      · have ahead := regular.comes_now comes
        omega
    · have early : between.now < limit := after.now ▸ Nat.lt_of_not_le overdue
      obtain ⟨waits, set, watches, limited⟩ := rests task last after (Nat.lt_of_not_le overdue)
      rw [watches] at looks
      have walk := (watched.run_of_sees looks).1
      have resting := (regular.run_of_sees sees).1.regular regular
      have waiting := walk.regular watched
      have full : waits.task.Filled := walk.filled watched (List.forall_mem_singleton.mpr filled) _
        (List.mem_singleton_self _)
      refine resting.resting_decided waiting full limited early sees looks
        fun first second called recalled goes soon => ?_
      exact later looks recalled ((resting.resumes called).1.regular resting)
        ((waiting.resumes recalled).1.regular waiting) goes soon full

/-- Once the alarm is set, an operation under a limit goes on in step with the one without, or is cut off. -/
theorem Regular.decided (watched : (solo contents other (.looking bound (.start 0 bound.task)) two).Regular)
    (regular : (solo contents call (.looking free (.start 0 free.task)) one).Regular)
    (limited : Limited limit alarm free bound one two) (bounded : one.now ≤ limit) (filled : bound.task.Filled) :
    Decided limit (.limited limit alarm) free bound one two := by
  refine @Regular.rounds contents other bound two (fun bound two => ∀ free one,
    (solo contents call (.looking free (.start 0 free.task)) one).Regular → Limited limit alarm free bound one two →
    one.now ≤ limit → bound.task.Filled → Decided limit (.limited limit alarm) free bound one two)
    ?_ watched free one regular limited bounded filled
  intro bound two watched ih free one regular limited bounded filled
  obtain ⟨progress, between, sees, _, _, _⟩ := regular.sees
  have own : ∀ number, some alarm = some number → (Guise.limited limit alarm).own number = false := by
    rintro _ ⟨⟩
    simp [Guise.limited]
  refine regular.look_decided watched limited.worlds limited.endless limited.same own sees (fun number lower _ => ?_)
    bounded filled (fun task last worlds early => ?_) fun looks recalled regular watched goes soon filled =>
      ih _ _ _ looks recalled watched _ _ regular goes soon filled
  · have older := limited.older
    exact if_neg (by omega)
  · refine ⟨{ bound with task := (Guise.limited limit alarm).task task }, last, ?_, limited.endless, ?_, worlds, ?_⟩
    · simp only [Operation.watch, limited.same, if_neg (Nat.not_le.mpr early)]
    · rw [limited.same]
      rfl
    · exact limited.older.trans sees.onward.fresh

/-- An entry that nobody is at work on has no numbers. -/
theorem Regular.plain_entry {registry : Registry} (regular : (resting contents registry).Regular) (guise : Guise)
    {key : Key} {entry : Entry} (found : registry.entry? key = some entry) : guise.entry entry = entry := by
  have idle : (resting contents registry).Idle := fun process member => nomatch member
  rcases idle.entry_cases regular.orderly found with ⟨value, rfl⟩ | ⟨payload, rfl⟩ <;> rfl

/-- The first look sets the alarm. Its number is the next one that is free after all that were taken meanwhile. -/
theorem Regular.beginning_decided {registry : Registry} {config : Config} {node : Node}
    (regular : (resting contents registry).Regular) (limitless : config.deadline = none) (limit : Nat) :
    ∃ alarm, Decided limit (.limited limit alarm) (.resolve 0 config node (.initial registry))
      (.resolve 0 { config with deadline := some limit } node (.initial registry)) (.initial registry)
      (.initial registry) := by
  have free := regular.beginning config node
  have bound := regular.beginning { config with deadline := some limit } node
  obtain ⟨progress, between, sees, _, _, _⟩ := free.sees
  refine ⟨between.fresh, ?_⟩
  have entries : Registry.Alike (.limited limit between.fresh) registry registry := by
    refine ⟨fun key => ?_, rfl, rfl, rfl⟩
    cases found : registry.entry? key with
    | none => rfl
    | some entry => rw [Option.map_some, regular.plain_entry _ found]
  have worlds : World.Alike (.limited limit between.fresh) 0 (.initial registry) (.initial registry) :=
    ⟨entries, rfl, rfl, rfl, rfl, rfl, rfl⟩
  have endless : (Operation.resolve 0 config node (.initial registry)).deadline = none := by
    simp [Operation.resolve, limitless]
  have same : Operation.resolve 0 { config with deadline := some limit } node (.initial registry) =
      { (Guise.limited limit between.fresh).operation (Operation.resolve 0 config node (.initial registry)) with
        deadline := some ⟨limit, limit, none⟩ } := by
    simp [Operation.resolve, Guise.operation, Guise.scope, Guise.limited, Scope.root, World.initial]
  refine free.look_decided bound worlds endless same (fun _ unset => by cases unset) sees (fun number _ upper => ?_)
    (Nat.zero_le limit) (.node _ _) (fun task last after early => ?_)
    fun looks recalled regular watched goes soon filled => watched.decided regular goes soon filled
  · exact if_pos upper
  · refine ⟨⟨0, (Guise.limited limit between.fresh).task task, some ⟨limit, limit, some last.fresh⟩, true⟩,
      (last.setTimer limit [.operation 0]).2, ?_, endless, ?_, ?_, Nat.le_refl _⟩
    · rw [same]
      simp only [Operation.watch, if_neg (Nat.not_le.mpr early)]
      rfl
    · rw [after.fresh]
      rfl
    · have next : last.fresh = between.fresh := after.fresh
      refine { after with timers := ?_, fresh := congrArg (· + 1) next }
      simp only [World.setTimer, World.take, List.filter_append, after.timers]
      simp [Guise.limited, next]

/-- What is left where nobody is at work has no numbers, so it is the same whatever the numbers were. -/
theorem Regular.registry_eq {first second : Registry} {guise : Guise} (regular : (resting contents first).Regular)
    (others : (resting contents second).Regular) (alike : Registry.Alike guise first second) : second = first := by
  have keys : first.entries.map (·.1) = contents.map (·.1) := regular.orderly.ledger.keys
  have places : second.entries.map (·.1) = contents.map (·.1) := others.orderly.ledger.keys
  exact alike.eq (places.trans keys.symm) (keys ▸ regular.orderly.ledger.distinct)
    fun _ _ found => regular.plain_entry guise found

section Over

variable {result : Except ResolveError Value} {world : World} {system : System}

theorem Regular.no_timers (regular : (solo contents call (.returned result) world).Regular) : world.timers = [] := by
  refine List.eq_nil_iff_forall_not_mem.mpr fun timer member => ?_
  have marked := (regular.alert.watched.timers timer member).1
  simp [System.marks, solo, Phase.marks] at marked

/-- Once an operation that was alone is over, time goes on and nothing else does. -/
theorem Regular.over (regular : (solo contents call (.returned result) world).Regular)
    (run : Run Action.Continues (solo contents call (.returned result) world) system) :
    system.world = { world with now := system.world.now } := by
  suffices still : ∃ now, system = solo contents call (.returned result) { world with now } by
    obtain ⟨now, rfl⟩ := still
    rfl
  induction run with
  | refl => exact ⟨world.now, rfl⟩
  | tail _ step ih =>
    obtain ⟨action, continues, acts⟩ := step
    obtain ⟨now, rfl⟩ := ih
    cases act?_acts acts with
    | registered | rejected | start => exact continues.elim
    | @advance time =>
      exact ⟨time, by simp [solo, World.advanceTo_eq, World.fired, regular.no_timers, Strand.wakeEach]⟩
    | @becomes _ id _ _ _ changes =>
      have phase : ∀ process : Process, [(⟨call, .returned result⟩ : Process)][id]? = some process →
          process.phase = .returned result := fun process present => by
        obtain ⟨_, rfl⟩ := List.getElem?_eq_some_iff.mp present
        simp
      cases changes with
      | look present | step present | conclude present | drop present => cases phase _ present

end Over

/-- A deadline cuts just those resolutions that are too slow. One that takes less time than its limit returns the same
and leaves the same as without the limit, at the same time. One that would take more is cut off when the limit is
reached; nothing goes on after that, and the registry that it leaves gives the same values. -/
theorem deadline_cuts_slow_resolves {system : System} (reachable : system.Reachable) (idle : system.Idle)
    {config : Config} (limitless : config.deadline = none) (duration : Duration) (node : Node) :
    let registry := system.world.registry
    let timed := config.withDeadline duration
    (∀ result world, Resolver.Returns config registry node result world → world.now < duration.limit →
      ∃ other, Resolver.Returns timed registry node result other ∧
        other.registry = world.registry ∧ other.now = world.now) ∧
    ((∀ result world, Resolver.Returns config registry node result world → duration.limit < world.now) →
      ∃ world, Resolver.Returns timed registry node (.error (.deadlineExceeded duration.limit)) world ∧
        world.now = duration.limit ∧
        (∀ last, Run Action.Continues (solo system.registered (.resolve timed node)
          (.returned (.error (.deadlineExceeded duration.limit))) world) last →
            last.world = { world with now := last.world.now }) ∧
        ∀ value, (∃ later, Resolver.Returns config world.registry node (.ok value) later) ↔
          ∃ later, Resolver.Returns config registry node (.ok value) later) := by
  intro registry timed
  have regular : (resting system.registered registry).Regular := reachable.regular.resting_of_idle idle
  -- what a resolution leaves, it leaves with nobody at work
  have leaves : ∀ {config : Config} {result : Except ResolveError Value} {world : World},
      Resolver.Returns config registry node result world →
        (solo system.registered (.resolve config node) (.returned result) world).Regular := fun returns =>
    (regular.returned returns).regular (regular.beginning _ node)
  have rests : ∀ {config : Config} {result : Except ResolveError Value} {world : World},
      Resolver.Returns config registry node result world → (resting system.registered world.registry).Regular :=
    fun returns => (leaves returns).resting_of_idle (List.forall_mem_singleton.mpr trivial)
  obtain ⟨alarm, decided⟩ := @Regular.beginning_decided _ _ config node regular limitless duration.limit
  constructor
  · intro result world returns early
    have comes := Resolver.returns_iff_comes.mp returns
    cases decided with
    | inTime free bound _ alike now =>
      obtain ⟨rfl, rfl⟩ := comes.unique free
      have again : Resolver.Returns timed registry node _ _ := Resolver.returns_iff_comes.mpr bound
      exact ⟨_, again, (rests returns).registry_eq (rests again) alike, now⟩
    | cut _ _ late => exact absurd (late _ _ comes) (Nat.not_le.mpr early)
  · intro slow
    cases decided with
    | inTime free _ bounded => exact absurd (slow _ _ (Resolver.returns_iff_comes.mpr free)) (Nat.not_lt.mpr bounded)
    | cut cut now _ =>
      have returns : Resolver.Returns timed registry node _ _ := Resolver.returns_iff_comes.mpr cut
      refine ⟨_, returns, now, fun last run => (leaves returns).over run, fun value => ?_⟩
      rw [(rests returns).returns_ok_iff limitless, regular.returns_ok_iff limitless]

/-- A text that takes four milliseconds. -/
def sleeper : Node :=
  .nested (.delayed .text (.literal (.text "awake")) 4)

theorem deadline_cuts_slow_resolves_sleeper :
    (initial.Reachable ∧ initial.Idle ∧ Config.default.deadline = none) ∧
      (∃ world, Resolver.Returns (Config.default.withDeadline ⟨0, 5999999⟩) .empty sleeper (.ok (.text "awake")) world ∧
        world.now = 4) ∧
      ∃ world, Resolver.Returns (Config.default.withDeadline ⟨0, 3999999⟩) .empty sleeper
        (.error (.deadlineExceeded 3)) world ∧ world.now = 3 := by
  have idle : initial.Idle := fun process member => nomatch member
  -- without a limit the text sleeps once and is there after four milliseconds
  let rested : Operation := ⟨0, .delay 4 0 (.node (.literal (.text "awake")) (.root .default)), none, true⟩
  let between : World := ⟨.empty, 0, [⟨0, 4, [.operation 0]⟩], [], 1, [], [.span "String" .root]⟩
  let woken : World := ⟨.empty, 4, [], [], 1, [], [.span "String" .root]⟩
  have sleeps : (Operation.resolve 0 .default sleeper (.initial .empty)).Sees (.initial .empty) (.waiting rested)
      between := ⟨4, ⟨0, .rest rested.task, []⟩, between, rfl, rfl⟩
  have called : rested.called? between = some woken := by
    simp [Operation.called?, rested, between, woken, World.nextDue?, World.advanceTo_eq, World.fired, Strand.wakeEach,
      Strand.wake]
  have wakes : rested.Sees woken (.over (.ok (.text "awake"))) (woken.emit .resolved) :=
    ⟨4, ⟨0, .finish (.ok (.text "awake")), []⟩, woken, rfl, rfl⟩
  have returns : Resolver.Returns .default .empty sleeper (.ok (.text "awake")) (woken.emit .resolved) :=
    Resolver.returns_iff_comes.mpr (.again sleeps called (.done wakes))
  have four : (woken.emit .resolved).now = 4 := rfl
  have long : Duration.limit ⟨0, 5999999⟩ = 5 := rfl
  have short : Duration.limit ⟨0, 3999999⟩ = 3 := rfl
  have cuts := fun duration =>
    deadline_cuts_slow_resolves .refl idle (rfl : Config.default.deadline = none) duration sleeper
  refine ⟨⟨.refl, idle, rfl⟩, ?_, ?_⟩
  · obtain ⟨other, again, _, now⟩ := (cuts ⟨0, 5999999⟩).1 _ _ returns (by omega)
    exact ⟨other, again, now⟩
  · obtain ⟨world, cut, now, _⟩ := (cuts ⟨0, 3999999⟩).2 fun result world other => by
      obtain ⟨_, rfl⟩ := returns.unique other
      omega
    exact ⟨world, cut, now⟩

end System

end Blueprint
