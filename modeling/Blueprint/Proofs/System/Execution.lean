import Mathlib.Data.Prod.Lex
import Mathlib.Order.OrderIsoNat
import Blueprint.Proofs.System.Standing
import Blueprint.Proofs.System.Weight
/-! Endless runs. Whoever is called is looked at, whoever is looked at goes on, and time passes; then from some time
on nothing changes any more but who is looked at, and every operation that is not over stands in queues. -/

namespace Blueprint

/-- Nothing is registered and no operation begins. -/
def Action.Continues : Action → Prop
  | .register _ _ | .start _ => False
  | .look _ | .step _ | .drop _ | .advance _ => True

theorem Action.Continues.quiet {action : Action} (continues : action.Continues) : System.Quiet action := by
  cases action with
  | register | start => exact continues.elim
  | look | step | drop | advance => trivial

theorem Action.Continues.not_start {action : Action} (continues : action.Continues) (call : Call) :
    action ≠ .start call := by
  rintro rfl
  exact continues

/-- Of an operation that rests with a mark that is stirred, the strand is queued: what calls an element of a
collection calls the collection. -/
theorem Phase.Alert.called {id : Nat} {world : World} {operation : Operation}
    (alert : (Phase.resting operation).Alert id world) {chain : List Strand} {mark : Mark}
    (member : (chain, mark) ∈ (Phase.resting operation).marks) (stirred : mark.Stirred world chain) :
    .operation id ∈ world.ready := by
  have headed := Marks.headed_phase (.resting operation)
  induction chain generalizing mark with
  | nil => exact absurd rfl (headed.ne_nil member)
  | cons strand outer ih =>
    obtain ⟨queued, ready, head⟩ := alert.2 _ member stirred
    cases head
    have rooted := headed _ member
    cases strand with
    | operation other =>
      have alone : outer = [] := rooted
      have inside := Phase.suffix_of_mark alert member
      rw [alone] at inside
      have equal := inside.eq_of_length rfl
      cases equal
      exact ready
    | element fan position => exact ih rooted ⟨position, ready⟩

/-- An operation is dropped only by whoever gives it up. -/
theorem System.Changes.drop_of_dropped {system : System} {action : Action} {id : Nat} {process : Process}
    {phase : Phase} {later : World} (changes : Changes system action id process phase later)
    (dropped : phase = .dropped) : action = .drop id := by
  cases changes with
  | look | step => cases dropped
  | conclude present idle =>
    rcases Operation.conclude_cases idle with ⟨task, deadline, later, _, _, same⟩ | ⟨result, later, same, _⟩ <;>
    · rw [same] at dropped
      cases dropped
  | drop => rfl

/-- An endless run from some state. Something is registered, or an operation begins, only finitely often. An
operation that is being looked at takes its next step at some time, one that rests and is called is looked
at or given up at some time, and no timer stays set for ever. Operations may be looked at without being
called, and may be given up at any time. -/
structure Execution (first : System) where
  states : Nat → System
  actions : Nat → Action
  begins : states 0 = first
  follows : ∀ n, (states n).act? (actions n) = some (states (n + 1))
  settles : ∃ last, ∀ n, last ≤ n → (actions n).Continues
  steps : ∀ n id operation machine, (states n).phase? id = some (.looking operation machine) →
    ∃ m, n ≤ m ∧ actions m = .step id
  looks : ∀ n id operation, (states n).phase? id = some (.resting operation) →
    .operation id ∈ (states n).world.ready → ∃ m, n ≤ m ∧ (actions m = .look id ∨ actions m = .drop id)
  passes : ∀ n, ∀ timer ∈ (states n).world.timers, ∃ m, n ≤ m ∧ timer ∉ (states m).world.timers

namespace Execution

variable {first : System} {demand : Contents → Call → Demand}

theorem reachable (execution : Execution first) (reachable : first.Reachable) (n : Nat) :
    (execution.states n).Reachable := by
  induction n with
  | zero => rwa [execution.begins]
  | succ n ih => exact ih.tail ⟨_, trivial, execution.follows n⟩

/-- What is left of an endless run after some actions. -/
def after (execution : Execution first) (n : Nat) : Execution (execution.states n) where
  states k := execution.states (n + k)
  actions k := execution.actions (n + k)
  begins := rfl
  follows k := execution.follows (n + k)
  settles :=
    have ⟨last, continues⟩ := execution.settles
    ⟨last, fun k later => continues (n + k) (by omega)⟩
  steps k id operation machine looking :=
    have ⟨m, later, step⟩ := execution.steps (n + k) id operation machine looking
    ⟨m - n, by omega, by rwa [Nat.add_sub_cancel' (by omega)]⟩
  looks k id operation resting called :=
    have ⟨m, later, look⟩ := execution.looks (n + k) id operation resting called
    ⟨m - n, by omega, by rwa [Nat.add_sub_cancel' (by omega)]⟩
  passes k timer set :=
    have ⟨m, later, gone⟩ := execution.passes (n + k) timer set
    ⟨m - n, by omega, by rwa [Nat.add_sub_cancel' (by omega)]⟩

/-- Nothing changes in the run but who is looked at. -/
def Still (execution : Execution first) : Prop :=
  ∀ n, System.Stays (execution.actions n) (execution.states n) (execution.states (n + 1))

/-- From some time on nothing changes but who is looked at: what is still to be done, and what the queued
strands and the timers may cost, cannot become less for ever. -/
theorem exists_still (execution : Execution first) (reachable : first.Reachable) :
    ∃ n, (execution.after n).Still := by
  obtain ⟨last, continues⟩ := execution.settles
  have eases := fun k =>
    (System.act?_acts (execution.follows (last + k))).eases (execution.reachable reachable (last + k)).orderly
      (execution.reachable reachable (last + k)).alert (continues (last + k) (Nat.le_add_right _ _)).quiet
      (continues (last + k) (Nat.le_add_right _ _)).not_start
  let measure : Nat → Nat ×ₗ Nat := fun k =>
    toLex ((execution.states (last + k)).weight, (execution.states (last + k)).pressure)
  have falls : Antitone measure := by
    refine antitone_nat_of_succ_le fun k => Prod.Lex.toLex_le_toLex.mpr ?_
    rcases eases k with lighter | ⟨weight, pressure⟩
    · exact .inl lighter
    · exact weight.lt_or_eq.imp_right fun same => ⟨same, pressure.elim Nat.le_of_lt And.left⟩
  obtain ⟨n, stable⟩ := WellFoundedLT.antitone_chain_condition falls
  refine ⟨last + n, fun k => ?_⟩
  have same : measure (n + k) = measure (n + k + 1) :=
    (stable (n + k) (by omega)).symm.trans (stable (n + k + 1) (by omega))
  obtain ⟨weight, pressure⟩ := Prod.mk.inj (congrArg ofLex same)
  have here : last + n + k = last + (n + k) := Nat.add_assoc _ _ _
  change System.Stays (execution.actions (last + n + k)) (execution.states (last + n + k))
    (execution.states (last + n + k + 1))
  rw [here]
  rcases eases (n + k) with lighter | ⟨_, less | ⟨_, stays⟩⟩
  · exact absurd weight lighter.ne'
  · exact absurd pressure less.ne'
  · exact stays

section Still

variable {execution : Execution first} (still : execution.Still)

include still

/-- What was registered, the registry and the timers stay as they are. -/
theorem Still.same (n : Nat) : (execution.states n).registered = first.registered ∧
    (execution.states n).world.registry = first.world.registry ∧
    (execution.states n).world.timers = first.world.timers := by
  induction n with
  | zero => rw [execution.begins]; exact ⟨rfl, rfl, rfl⟩
  | succ n ih =>
    have stays := still n
    exact ⟨stays.registered.trans ih.1, stays.registry.trans ih.2.1, stays.timers.trans ih.2.2⟩

/-- Where time passes and no timer fires, none is set. -/
theorem Still.timers_nil (n : Nat) : (execution.states n).world.timers = [] := by
  refine List.eq_nil_iff_forall_not_mem.mpr fun timer set => ?_
  obtain ⟨m, _, gone⟩ := execution.passes n timer set
  rw [(still.same m).2.2, ← (still.same n).2.2] at gone
  exact gone set

theorem Still.queue (n : Nat) (key : Key) : (execution.states n).world.queue key = first.world.queue key := by
  rw [World.queue, (still.same n).2.1, World.queue]

/-- What a phase does not leave of itself, it does not leave until something is done about it. -/
theorem Still.until {id n m : Nat} {call : Call} {phase : Phase} (le : n ≤ m)
    (present : (execution.states n).processes[id]? = some ⟨call, phase⟩)
    (alone : ∀ k, n ≤ k → k < m → ∀ next,
      phase.Stays (execution.actions k) id (execution.states k).world next → next = phase) :
    (execution.states m).processes[id]? = some ⟨call, phase⟩ := by
  induction m, le using Nat.le_induction with
  | base => exact present
  | succ m le ih =>
    have here := ih fun k later before => alone k later (by omega)
    obtain ⟨next, there, stays⟩ := (still m).each id _ here
    rw [there, alone m le (Nat.lt_succ_self m) next stays]

/-- Nobody rests with a mark that is stirred and stays so: who does is called, and would be looked at. -/
theorem Still.not_stirred (reachable : first.Reachable) {id n : Nat} {call : Call} {operation : Operation}
    (present : (execution.states n).processes[id]? = some ⟨call, .resting operation⟩) {chain : List Strand}
    {mark : Mark} (member : (chain, mark) ∈ (Phase.resting operation).marks) :
    ¬ ∀ m, mark.Stirred (execution.states m).world chain := by
  intro stirred
  have alert : ∀ m, (execution.states m).processes[id]? = some ⟨call, .resting operation⟩ →
      .operation id ∈ (execution.states m).world.ready := fun m here =>
    ((execution.reachable reachable m).alert.each id _ here).called member (stirred m)
  have looked : ∃ m, n ≤ m ∧ (execution.actions m = .look id ∨ execution.actions m = .drop id) :=
    execution.looks n id operation (by rw [System.phase?, present]; rfl) (alert n present)
  classical
  obtain ⟨later, acts⟩ := Nat.find_spec looked
  have here : (execution.states (Nat.find looked)).processes[id]? = some ⟨call, .resting operation⟩ := by
    refine still.until later present fun k after before next stays => ?_
    have none := Nat.find_min looked before
    cases stays with
    | alone => rfl
    | looks look => exact absurd ⟨after, .inl look⟩ none
  obtain ⟨next, _, stays⟩ := (still (Nat.find looked)).each id _ here
  cases stays with
  | alone look step drop => exact acts.elim look drop
  | looks look silent => exact silent (alert _ here)

/-- An operation that rests stands in queues. -/
theorem Still.stands_of_resting (lasting : Demand.Lasting demand) (reachable : first.Reachable) (process : Process)
    {id n : Nat} {operation : Operation}
    (present : (execution.states n).processes[id]? = some ⟨process.call, .resting operation⟩)
    (stakes : operation.task.stakes none = process.phase.task.stakes none) :
    process.Stands (demand first.registered process.call) first.registered first.world id operation.task := by
  have here := execution.reachable reachable n
  have inside := List.mem_of_getElem? present
  have named : operation.id = id := (here.alert.each id _ present).1
  have stirred : ∀ chain mark, (chain, mark) ∈ operation.task.marks [.operation operation.id] →
      ¬ ∀ m, mark.Stirred (execution.states m).world chain := fun _ _ member =>
    still.not_stirred reachable present (Multiset.mem_add.mpr (.inl member))
  rw [named] at stirred
  refine ⟨stakes, ?_, ?_, fun mark member => ?_, fun strands key ticket member => ?_⟩
  · rw [← (still.same n).1]
    exact (here.orderly.each _ inside).sound
  · rw [← (still.same n).1]
    exact here.every lasting _ inside
  · obtain ⟨chain, kind⟩ := mark
    cases kind with
    | seat | fan => trivial
    | idle => exact absurd (fun _ => trivial) (stirred _ _ member)
    | timer number due =>
      refine absurd (fun m => ?_) (stirred _ _ member)
      rw [Mark.Stirred, still.timers_nil m]
      exact List.not_mem_nil
  · by_contra missing
    refine absurd (fun m => ?_) (stirred _ _ member)
    rw [Mark.Stirred, still.queue m]
    exact missing

/-- An operation that is being looked at comes to rest. -/
theorem Still.comes_to_rest {id n : Nat} {call : Call} {operation : Operation} {machine : Machine}
    (present : (execution.states n).processes[id]? = some ⟨call, .looking operation machine⟩) :
    ∃ m rested, (execution.states m).processes[id]? = some ⟨call, .resting rested⟩ ∧
      rested.task.stakes none = machine.whole.stakes none := by
  induction trip : machine.trip using Nat.strong_induction_on generalizing n machine with
  | _ bound ih =>
    have stepped : ∃ m, n ≤ m ∧ execution.actions m = .step id :=
      execution.steps n id operation machine (by rw [System.phase?, present]; rfl)
    classical
    obtain ⟨later, step⟩ := Nat.find_spec stepped
    have here : (execution.states (Nat.find stepped)).processes[id]? = some ⟨call, .looking operation machine⟩ := by
      refine still.until later present fun k after before next stays => ?_
      have none := Nat.find_min stepped before
      cases stays with
      | alone => rfl
      | steps step => exact absurd ⟨after, step⟩ none
      | rests step => exact absurd ⟨after, step⟩ none
    obtain ⟨next, there, stays⟩ := (still (Nat.find stepped)).each id _ here
    cases stays with
    | alone look other => exact absurd step other
    | steps _ marks stakes nearer =>
      obtain ⟨m, rested, final, same⟩ := ih _ (by omega) there rfl
      exact ⟨m, rested, final, same.trans stakes⟩
    | rests => exact ⟨_, _, there, rfl⟩

/-- Where nothing changes but who is looked at, every operation is over or stands in queues. -/
theorem Still.stands (lasting : Demand.Lasting demand) (reachable : first.Reachable) {id : Nat} {process : Process}
    (present : first.processes[id]? = some process) :
    ¬ process.phase.Open ∨
      ∃ task, process.Stands (demand first.registered process.call) first.registered first.world id task := by
  obtain ⟨call, phase⟩ := process
  have begins : (execution.states 0).processes[id]? = some ⟨call, phase⟩ := by rwa [execution.begins]
  cases phase with
  | returned | dropped => exact .inl fun running => running
  | resting operation => exact .inr ⟨_, still.stands_of_resting lasting reachable _ begins rfl⟩
  | looking operation machine =>
    obtain ⟨m, rested, final, stakes⟩ := still.comes_to_rest begins
    exact .inr ⟨_, still.stands_of_resting lasting reachable ⟨call, .looking operation machine⟩ final stakes⟩

/-- Where nothing changes but who is looked at, an operation for a call that goes on itself and refers only to
entries on whose behalf all goes on is over. -/
theorem Still.over (lasting : Demand.Lasting demand) (reachable : first.Reachable) {alive : Key → Prop}
    (living : first.Living demand alive) {id : Nat} {process : Process} (present : first.processes[id]? = some process)
    (own : ¬ demand first.registered process.call none .forever) (rooted : ∀ key ∈ process.call.references, alive key) :
    ¬ process.phase.Open := by
  intro running
  have stands : first.Stands demand := by
    intro other its found
    refine (still.stands lasting reachable found).imp_left fun ended => ?_
    obtain ⟨call, phase⟩ := its
    cases phase with
    | resting | looking => exact absurd trivial ended
    | returned | dropped => simp [Phase.task]
  rcases still.stands lasting reachable present with ended | ⟨task, standing⟩
  · exact ended running
  · exact stands.not_living reachable.orderly living (List.mem_of_getElem? present) own rooted task standing

end Still

/-- An operation that has begun is there from then on, and if nobody gives it up it is not dropped. -/
theorem present_after (execution : Execution first) {id n : Nat} {call : Call} {phase : Phase}
    (present : (execution.states n).processes[id]? = some ⟨call, phase⟩) (taken : phase ≠ .dropped)
    (kept : ∀ m, execution.actions m ≠ .drop id) (k : Nat) :
    ∃ later, (execution.states (n + k)).processes[id]? = some ⟨call, later⟩ ∧ later ≠ .dropped := by
  induction k with
  | zero => exact ⟨phase, present, taken⟩
  | succ k ih =>
    obtain ⟨middle, there, running⟩ := ih
    obtain ⟨next, after, goes⟩ := (System.act?_acts (execution.follows (n + k))).goes_on there
    refine ⟨next, after, fun dropped => ?_⟩
    rcases goes with rfl | ⟨_, changes⟩
    · exact running dropped
    · exact kept (n + k) (changes.drop_of_dropped dropped)

/-- In an endless run, an operation that nobody gives up returns if its call goes on itself and refers only to
entries on whose behalf all goes on. -/
theorem returns (execution : Execution first) (lasting : Demand.Lasting demand) (reachable : first.Reachable)
    {id n : Nat} {call : Call} {phase : Phase}
    (present : (execution.states n).processes[id]? = some ⟨call, phase⟩) (taken : phase ≠ .dropped)
    (kept : ∀ m, execution.actions m ≠ .drop id) {alive : Nat → Key → Prop}
    (living : ∀ m, n ≤ m → (execution.states m).Living demand (alive m))
    (own : ∀ m, n ≤ m → ¬ demand (execution.states m).registered call none .forever)
    (rooted : ∀ m, n ≤ m → ∀ key ∈ call.references, alive m key) :
    ∃ m result, n ≤ m ∧ (execution.states m).phase? id = some (.returned result) := by
  obtain ⟨k, still⟩ := (execution.after n).exists_still (execution.reachable reachable n)
  obtain ⟨later, there, running⟩ := execution.present_after present taken kept k
  have ended := still.over lasting (execution.reachable reachable (n + k)) (living _ (Nat.le_add_right _ _)) there
    (own _ (Nat.le_add_right _ _)) (rooted _ (Nat.le_add_right _ _))
  cases later with
  | resting | looking => exact absurd trivial ended
  | returned result => exact ⟨n + k, result, Nat.le_add_right _ _, by rw [System.phase?, there]; rfl⟩
  | dropped => exact absurd rfl running

/-- In an endless run, an operation for a call that flows, and that nobody gives up, returns. -/
theorem returns_of_flowing (execution : Execution first) (reachable : first.Reachable) {id n : Nat} {call : Call}
    {phase : Phase} (present : (execution.states n).processes[id]? = some ⟨call, phase⟩) (taken : phase ≠ .dropped)
    (kept : ∀ m, execution.actions m ≠ .drop id)
    (flowing : ∀ m, (execution.states m).registered.Flowing call) :
    ∃ m result, (execution.states m).phase? id = some (.returned result) := by
  have living : ∀ m, n ≤ m → (execution.states m).Living (fun contents call => Blueprint.flowing (contents.Free call))
      ((execution.states m).registered.Reaches call.references) := fun m _ => {
    closed := fun _ _ ⟨root, listed, way⟩ refers => ⟨root, listed, way.tail refers⟩
    goes := fun _ _ key reached stalled => stalled ((flowing m).2 key reached) }
  obtain ⟨m, result, _, returned⟩ := execution.returns flowing_lasting reachable present taken kept living
    (fun m _ stalled => stalled (flowing m).1) fun m _ key listed => ⟨key, listed, .refl⟩
  exact ⟨m, result, returned⟩

/-- Where nothing is registered, what was registered stays. -/
theorem registered_eq (execution : Execution first) (quiet : ∀ n, System.Quiet (execution.actions n)) (n : Nat) :
    (execution.states n).registered = first.registered := by
  induction n with
  | zero => rw [execution.begins]
  | succ n ih => exact (System.act?_registered (quiet n) (execution.follows n)).trans ih

end Execution

namespace System

theorem perform_append {first : System} (one two : List Action) :
    first.perform (one ++ two) = (first.perform one).bind fun middle => middle.perform two := by
  induction one generalizing first with
  | nil => rfl
  | cons action rest ih => simp only [List.cons_append, perform, ih, Option.bind_assoc]

/-- To go to where the clock is changes nothing if no timer is set. -/
theorem act?_advance_now {system : System} (timeless : system.world.timers = []) :
    system.act? (.advance system.world.now) = some system := by
  obtain ⟨registered, ⟨registry, now, timers, ready, fresh, starts, events⟩, processes⟩ := system
  cases timeless
  have same : (World.mk registry now [] ready fresh starts events).advanceTo now =
      ⟨registry, now, [], ready, fresh, starts, events⟩ := by
    simp [World.advanceTo_eq, World.fired, Strand.wakeEach]
  rw [act?, if_pos (le_refl _), same]

theorem Changes.step_of_looking {system : System} {action : Action} {id : Nat} {call : Call} {operation : Operation}
    {machine : Machine} {next : Phase} {later : World}
    (changes : Changes system action id ⟨call, .looking operation machine⟩ next later) : action = .step id := by
  cases changes <;> rfl

theorem Changes.look_of_resting {system : System} {action : Action} {id : Nat} {call : Call} {operation : Operation}
    {next : Phase} {later : World} (changes : Changes system action id ⟨call, .resting operation⟩ next later) :
    action = .look id ∨ action = .drop id := by
  cases changes with
  | look => exact .inl rfl
  | drop => exact .inr rfl

/-- While none of the actions is about an operation, it stays in its phase. -/
theorem present_of_idle {states : Nat → System} {actions : Nat → Action}
    (follows : ∀ n, (states n).act? (actions n) = some (states (n + 1))) {id n : Nat} {call : Call} {phase : Phase}
    (present : (states n).processes[id]? = some ⟨call, phase⟩) (idle : ∀ m, n ≤ m → ∀ next later,
      ¬ Changes (states m) (actions m) id ⟨call, phase⟩ next later) (k : Nat) :
    (states (n + k)).processes[id]? = some ⟨call, phase⟩ := by
  induction k with
  | zero => exact present
  | succ k ih =>
    obtain ⟨next, there, rfl | ⟨later, changes⟩⟩ := (act?_acts (follows (n + k))).goes_on ih
    · exact there
    · exact absurd changes (idle (n + k) (Nat.le_add_right _ _) next later)

end System

section Idling

variable {first last : System} {actions : List Action}

/-- The state after some of the actions, and the last one from then on. -/
def idlingState (first last : System) (actions : List Action) (n : Nat) : System :=
  (first.perform (actions.take n)).getD last

/-- One of the actions, and from then on going to where the clock is. -/
def idlingAction (last : System) (actions : List Action) (n : Nat) : Action :=
  actions[n]?.getD (.advance last.world.now)

theorem idlingState_last (result : first.perform actions = some last) {n : Nat} (late : actions.length ≤ n) :
    idlingState first last actions n = last := by
  rw [idlingState, List.take_of_length_le late, result]
  rfl

theorem idling_follows (result : first.perform actions = some last) (timeless : last.world.timers = []) (n : Nat) :
    (idlingState first last actions n).act? (idlingAction last actions n) =
      some (idlingState first last actions (n + 1)) := by
  rcases Nat.lt_or_ge n actions.length with early | late
  · have whole := result
    rw [← List.take_append_drop n actions, System.perform_append] at whole
    obtain ⟨middle, here, rest⟩ := Option.bind_eq_some_iff.mp whole
    rw [List.drop_eq_getElem_cons early] at rest
    obtain ⟨next, acts, _⟩ := Option.bind_eq_some_iff.mp rest
    have there : first.perform (actions.take (n + 1)) = some next := by
      rw [List.take_succ_eq_append_getElem early, System.perform_append, here]
      simp [System.perform, acts]
    rw [idlingState, idlingState, here, there, idlingAction, List.getElem?_eq_getElem early]
    exact acts
  · rw [idlingState_last result late, idlingState_last result (Nat.le_succ_of_le late), idlingAction,
      List.getElem?_eq_none late]
    exact System.act?_advance_now timeless

theorem idlingAction_all (holds : Action → Prop) (each : ∀ action ∈ actions, holds action)
    (rests : holds (.advance last.world.now)) (n : Nat) : holds (idlingAction last actions n) := by
  unfold idlingAction
  cases found : actions[n]? with
  | none => exact rests
  | some action => exact each action (List.mem_of_getElem? found)

/-- A run at whose end all operations are over and no timer is set goes on for ever with nothing happening. -/
def Execution.idling (result : first.perform actions = some last)
    (ended : ∀ process ∈ last.processes, ¬ process.phase.Open) (timeless : last.world.timers = []) :
    Execution first where
  states := idlingState first last actions
  actions := idlingAction last actions
  begins := rfl
  follows := idling_follows result timeless
  settles := by
    refine ⟨actions.length, fun n late => ?_⟩
    rw [idlingAction, List.getElem?_eq_none late]
    trivial
  steps n id operation machine looking := by
    obtain ⟨call, present⟩ := System.process_of_phase looking
    by_contra none
    have stays := System.present_of_idle (idling_follows result timeless) present
      (fun m later next world changes => none ⟨m, later, changes.step_of_looking⟩) actions.length
    rw [idlingState_last result (Nat.le_add_left _ _)] at stays
    exact ended _ (List.mem_of_getElem? stays) trivial
  looks n id operation resting _ := by
    obtain ⟨call, present⟩ := System.process_of_phase resting
    by_contra none
    have stays := System.present_of_idle (idling_follows result timeless) present
      (fun m later next world changes => none ⟨m, later, changes.look_of_resting⟩) actions.length
    rw [idlingState_last result (Nat.le_add_left _ _)] at stays
    exact ended _ (List.mem_of_getElem? stays) trivial
  passes n timer set := by
    refine ⟨n + actions.length, Nat.le_add_right _ _, ?_⟩
    rw [idlingState_last result (Nat.le_add_left _ _), timeless]
    exact List.not_mem_nil

end Idling

end Blueprint
