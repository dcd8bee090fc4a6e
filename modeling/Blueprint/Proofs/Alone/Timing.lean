import Blueprint.Proofs.Deadline
import Blueprint.Proofs.Machine.Prompt
/-! When an operation that is alone comes to its end. No look changes when that will be, a look at that time goes on to
the end, and between two looks the clock never goes further than that. -/

namespace Blueprint

/-- A task that will come to a value at some time by reading alone, whoever is called in the meantime. -/
structure Task.OnTime (contents : Contents) (finish : Nat) (task : Task) (world : World) : Prop where
  timely : task.Timely (contents.valueOf []) world.registry none
  answers : task.Answers world
  ends : task.ends world.now = finish

/-- A machine whose operation will come to a value at some time, and which leaves nothing behind once it is due. -/
structure Machine.OnTime (contents : Contents) (finish : Nat) (machine : Machine) (world : World) : Prop where
  whole : machine.whole.OnTime contents finish world
  prompt : finish ≤ world.now → machine.Prompt

variable {contents : Contents} {finish : Nat} {world later : World}

/-- Nothing matters to a task but the registry, the clock and who is called. -/
theorem Task.OnTime.still {task : Task} (onTime : task.OnTime contents finish world)
    (registry : later.registry = world.registry) (ready : later.ready.Sublist world.ready)
    (now : later.now = world.now) : task.OnTime contents finish later where
  timely := registry ▸ onTime.timely
  answers := ⟨onTime.answers.once.sublist ready,
    fun id position queued => onTime.answers.runs id position (ready.subset queued)⟩
  ends := now ▸ onTime.ends

/-- A step changes nothing about when the operation ends. -/
theorem Machine.OnTime.step {machine : Machine} {result : Machine × World} {roots : List Key} {others : Multiset Hold}
    {rest : Marks} (onTime : machine.OnTime contents finish world)
    (account : machine.Account contents roots others world) (minded : machine.Minded rest world)
    (step : machine.step world = some result) : result.1.OnTime contents finish result.2 := by
  obtain ⟨whole, prompt⟩ := onTime
  obtain ⟨timely, ends⟩ := step_timely account whole.timely step
  have answers := step_answers account.whole.sound whole.timely.known whole.timely.complete minded whole.answers step
  refine ⟨⟨timely, answers, ends.trans whole.ends⟩, fun due => ?_⟩
  rw [(step_onward step).now] at due
  exact step_prompt account.whole.sound whole.timely minded whole.answers (whole.ends.trans_le due) (prompt due) step

namespace Operation

variable {operation : Operation}

/-- When an operation is cut off. -/
def limit? (operation : Operation) : Option Nat := operation.deadline.map Deadline.due

/-- Work that waits goes on to wait, at most with its alarm set, unless its time is over. -/
theorem watch_cases (operation : Operation) (world : World) :
    (∃ rested later, operation.watch world = (.waiting rested, later) ∧ rested.task = operation.task ∧
      rested.limit? = operation.limit? ∧ later.registry = world.registry ∧ later.ready = world.ready) ∨
    ∃ error later, operation.watch world = (.over (.error error), later) ∧
      ∃ limit ∈ operation.limit?, limit ≤ world.now := by
  unfold watch limit?
  split
  next => exact .inl ⟨_, _, rfl, rfl, rfl, rfl, rfl⟩
  next deadline set =>
    split
    next overdue => exact .inr ⟨_, _, rfl, deadline.due, by rw [set]; rfl, overdue⟩
    next =>
      split
      next => exact .inl ⟨_, _, rfl, rfl, rfl, rfl, rfl⟩
      next => exact .inl ⟨_, _, rfl, rfl, by rw [set]; rfl, rfl, rfl⟩

/-- How a look at an operation that will end at some time comes out. -/
inductive Looked (contents : Contents) (finish : Nat) (operation : Operation) (later : World) : Progress → Prop where
  | returns {value : Value} (now : later.now = finish) : Looked contents finish operation later (.over (.ok value))
  | waits {rested : Operation} (onTime : rested.task.OnTime contents finish later) (early : later.now < finish)
      (limit : rested.limit? = operation.limit?) : Looked contents finish operation later (.waiting rested)
  | cut {error : ResolveError} {limit : Nat} (set : limit ∈ operation.limit?) (overdue : limit ≤ later.now)
      (early : later.now < finish) : Looked contents finish operation later (.over (.error error))

end Operation

namespace System

open Operation (Looked)

variable {call : Call} {operation rested : Operation} {machine last : Machine} {between next : World}

theorem marks_solo (phase : Phase) : (solo contents call phase world).marks = phase.marks := by
  simp [marks, solo]

/-- A machine that is alone is minded but for the alarm of its operation. -/
theorem Regular.minded (regular : (solo contents call (.looking operation machine) world).Regular) :
    machine.Minded operation.alarm world := by
  have watched := regular.alert.watched
  rw [marks_solo] at watched
  exact ⟨Marks.headed_alarm operation, watched, (regular.alert.each 0 _ rfl).2.2⟩

/-- A look stays in time from its first step to its last one. -/
theorem Regular.run_onTime {fuel : Nat} (regular : (solo contents call (.looking operation machine) world).Regular)
    (onTime : machine.OnTime contents finish world) (run : machine.run fuel world = some (last, later)) :
    (solo contents call (.looking operation last) later).Regular ∧ last.OnTime contents finish later := by
  induction fuel generalizing machine world with
  | zero => cases run
  | succ fuel ih =>
    rw [Machine.run] at run
    split at run
    next =>
      cases run
      exact ⟨regular, onTime⟩
    next step =>
      obtain ⟨own, ledger⟩ := @Orderly.process _ regular.orderly 0 _ rfl
      exact ih (regular.act (act?_step step)) (onTime.step (account_of_orderly own ledger) regular.minded step) run

/-- A look at an operation comes to the end if it is time, and else leaves it to be looked at in time. -/
theorem Regular.looked {progress : Operation.Progress}
    (regular : (solo contents call (.looking operation (.start 0 operation.task)) world).Regular)
    (onTime : operation.task.OnTime contents finish world) (sees : operation.Sees world progress later) :
    Looked contents finish operation later progress := by
  have now := sees.onward.now
  obtain ⟨fuel, last, between, run, concludes⟩ := sees
  have named : operation.id = 0 := (regular.alert.each 0 _ rfl).1
  rw [named] at run
  have same : between.now = world.now := (Machine.run_onward run).now
  obtain ⟨ended, whole, prompt⟩ := regular.run_onTime ⟨onTime, fun _ => ⟨nofun, nofun⟩⟩ run
  cases Machine.step_idles (Machine.step_of_run run) with
  | @rest number task =>
    have early : between.now < finish := Nat.lt_of_not_le fun due => (prompt due).goes task rfl
    rcases Operation.watch_cases { operation with task } between with
      ⟨rested, after, watches, kept, limit, registry, ready⟩ | ⟨error, after, watches, limit, set, overdue⟩
    · cases watches.symm.trans concludes
      refine .waits ?_ (by omega) limit
      rw [kept]
      exact whole.still registry (ready ▸ .refl _) (now.trans same.symm)
    · cases watches.symm.trans concludes
      exact .cut set (by omega) (by omega)
  | @finish number result =>
    cases concludes
    cases result with
    | ok value =>
      have ends : between.now = finish := by simpa [Machine.whole, surround, Control.task, Node.time] using whole.ends
      exact .returns (by omega)
    | error error => cases whole.timely.known

/-- Whoever is called of an operation that is alone, among its timers as well, runs in it. -/
theorem Regular.runs_of_timer (regular : (solo contents call (.resting rested) world).Regular) {timer : Timer}
    (set : timer ∈ world.timers) {id position : Nat} (inside : .element id position ∈ timer.strands) :
    rested.task.Runs (.element id position) := by
  have marked := (regular.alert.watched.timers timer set).1
  rw [marks_solo] at marked
  rcases Multiset.mem_add.mp marked with own | alarm
  · exact (Task.runs_of_mark own inside).resolve_left (by simp)
  · unfold Operation.alarm at alarm
    split at alarm
    · rw [(Prod.mk.inj (Multiset.mem_singleton.mp alarm)).1] at inside
      simp at inside
    · simp at alarm

/-- What an operation that is not called waits for is not due before its next timer. -/
theorem Regular.after_of_timers {time : Nat} (regular : (solo contents call (.resting rested) world).Regular)
    (onTime : rested.task.OnTime contents finish world) (silent : .operation 0 ∉ world.ready)
    (bound : ∀ timer ∈ world.timers, time ≤ timer.due) (forward : world.now ≤ time) :
    time ≤ finish ∧ rested.task.ends time = finish := by
  obtain ⟨named, awake⟩ := regular.alert.each 0 _ rfl
  have sound := (regular.orderly.each _ (List.mem_singleton_self _)).sound
  have own : ∀ mark ∈ rested.task.marks [.operation 0], Mark.Awake world mark := fun mark member =>
    awake mark (Multiset.mem_add.mpr (.inl (named.symm ▸ member)))
  have after := Task.after_of_silent own silent onTime.timely.not_waiting bound
  have ends := Task.ends_of_after onTime.timely.packed sound onTime.timely.known after forward
  rwa [onTime.ends] at ends

/-- Going on to when the next timer is due makes no operation late, and calls only who runs in it. -/
theorem Regular.advanced_onTime {time : Nat} (regular : (solo contents call (.resting rested) world).Regular)
    (onTime : rested.task.OnTime contents finish world) (silent : .operation 0 ∉ world.ready)
    (bound : ∀ timer ∈ world.timers, time ≤ timer.due) (forward : world.now ≤ time) :
    rested.task.OnTime contents finish (world.advanceTo time) := by
  have ends := (regular.after_of_timers onTime silent bound forward).2
  rw [World.advanceTo_eq]
  refine ⟨onTime.timely, ⟨Strand.nodup_wakeEach onTime.answers.once _, fun id position queued => ?_⟩, ends⟩
  rcases Strand.told_wakeEach queued with old | ⟨chain, rings, outer, inside, _⟩
  · exact onTime.answers.runs id position old
  · obtain ⟨timer, fired, rfl⟩ := List.mem_map.mp rings
    exact regular.runs_of_timer (World.mem_fired.mp fired).1 (inside.subset List.mem_cons_self)

/-- An operation that is called again will still end at the same time. -/
theorem Regular.called_onTime (regular : (solo contents call (.resting rested) world).Regular)
    (onTime : rested.task.OnTime contents finish world) (called : rested.called? world = some next) :
    rested.task.OnTime contents finish next := by
  have named : rested.id = 0 := (regular.alert.each 0 _ rfl).1
  by_cases ready : .operation 0 ∈ world.ready
  · have same : next = attended world 0 := by
      simpa [Operation.called?, named, ready, attended, eq_comm] using called
    rw [same]
    exact onTime.still rfl List.erase_sublist rfl
  rcases called_cases called named with ⟨queued, _⟩ | ⟨due, found, rfl⟩
  · exact absurd queued ready
  · obtain ⟨⟨timer, set, same⟩, least⟩ := nextDue?_eq_some found
    have forward : world.now ≤ due := same ▸ (regular.alert.watched.timers timer set).2.le
    exact (regular.advanced_onTime onTime ready least forward).still rfl List.erase_sublist rfl

/-- An operation that comes to a value comes to it in time. -/
theorem Regular.now_of_comes {value : Value}
    (regular : (solo contents call (.looking operation (.start 0 operation.task)) world).Regular)
    (onTime : operation.task.OnTime contents finish world) (comes : operation.Comes world (.ok value) later) :
    later.now = finish := by
  generalize has : (Except.ok value : Except ResolveError Value) = result at comes
  induction comes with
  | done sees =>
    subst has
    cases regular.looked onTime sees with
    | returns now => exact now
  | again sees called _ ih =>
    have rests := (regular.run_of_sees sees).1.regular regular
    cases regular.looked onTime sees with
    | waits onTime early limit =>
      exact ih ((rests.resumes called).1.regular rests) (rests.called_onTime onTime called) has

/-- An operation that is not cut off before its time comes to a value then. -/
theorem Regular.comes_of_limit
    (regular : (solo contents call (.looking operation (.start 0 operation.task)) world).Regular)
    (onTime : operation.task.OnTime contents finish world) (enough : ∀ limit ∈ operation.limit?, finish ≤ limit) :
    ∃ value later, operation.Comes world (.ok value) later ∧ later.now = finish := by
  refine @Regular.rounds contents call operation world (fun operation world =>
    operation.task.OnTime contents finish world → (∀ limit ∈ operation.limit?, finish ≤ limit) →
      ∃ value later, operation.Comes world (.ok value) later ∧ later.now = finish) ?_ regular onTime enough
  intro operation world regular ih onTime enough
  obtain ⟨progress, between, sees, _, way, _⟩ := regular.sees
  have rests := way.regular regular
  cases regular.looked onTime sees with
  | returns now => exact ⟨_, between, .done sees, now⟩
  | @waits rested onTime early limit =>
    cases called : rested.called? between with
    | none =>
      obtain ⟨silent, timers⟩ := silent_of_called? called (rests.alert.each 0 _ rfl).1
      have bound : ∀ timer ∈ between.timers, finish + 1 ≤ timer.due := by simp [timers]
      have beyond := (rests.after_of_timers onTime silent bound (by omega)).1
      omega
    | some next =>
      obtain ⟨value, later, comes, now⟩ := ih rested between next sees called
        ((rests.resumes called).1.regular rests) (rests.called_onTime onTime called) (limit ▸ enough)
      exact ⟨value, later, .again sees called comes, now⟩
  | cut set overdue early =>
    have ahead := enough _ set
    omega

end System

end Blueprint
