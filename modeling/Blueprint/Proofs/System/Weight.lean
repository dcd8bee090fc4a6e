import Mathlib.Algebra.Order.BigOperators.Group.List
import Mathlib.Algebra.Order.Group.Nat
import Blueprint.Proofs.Machine.Spending
import Blueprint.Proofs.System.Alert
/-! What is still to be done by all operations. The efforts of their tasks and what it may cost them to
initialize entries grow by no action but the beginning of an operation. Where they stay, so does the
registry, and the strands that are queued and the timers that are set become no more. -/

namespace Blueprint

namespace Contents

variable {contents : Contents} {registry after : Registry} {stakes next : Stakes}

/-- What it takes to initialize an entry. -/
def cost (contents : Contents) (key : Key) : Nat :=
  ((contents.node? key).map fun node => node.effort + 1).getD 0

/-- An entry that an operation will not initialize: it is complete, or the operation is about it. -/
def Settled (registry : Registry) (stakes : Stakes) (key : Key) : Prop :=
  (registry.get? key.type key).isSome ∨ stakes.Turns key

open Classical in
/-- What an operation may still spend on an entry. -/
noncomputable def share (contents : Contents) (registry : Registry) (stakes : Stakes) (key : Key) : Nat :=
  if Settled registry stakes key then 0 else contents.cost key

theorem share_le {key : Key} (kept : Settled registry stakes key → Settled after next key) :
    contents.share after next key ≤ contents.share registry stakes key := by
  unfold share
  by_cases settled : Settled registry stakes key
  · rw [if_pos (kept settled)]
    exact Nat.zero_le _
  · rw [if_neg settled]
    split
    · exact Nat.zero_le _
    · exact le_refl _

/-- What it may cost an operation to initialize entries from now on. -/
noncomputable def budget (contents : Contents) (registry : Registry) (stakes : Stakes) : Nat :=
  (contents.map fun item => contents.share registry stakes item.1).sum

theorem budget_le (contents : Contents) (kept : ∀ key, Settled registry stakes key → Settled after next key) :
    contents.budget after next ≤ contents.budget registry stakes :=
  List.sum_le_sum fun item _ => share_le (kept item.1)

theorem sum_gap {α : Type} {items : List α} {more fewer : α → Nat} (le : ∀ item ∈ items, fewer item ≤ more item)
    {item : α} (member : item ∈ items) {gap : Nat} (less : fewer item + gap ≤ more item) :
    (items.map fewer).sum + gap ≤ (items.map more).sum := by
  induction items with
  | nil => cases member
  | cons first rest ih =>
    rw [List.map_cons, List.sum_cons, List.map_cons, List.sum_cons]
    have below := le first List.mem_cons_self
    have others : ∀ item ∈ rest, fewer item ≤ more item := fun item later =>
      le item (List.mem_cons_of_mem _ later)
    rcases List.mem_cons.mp member with rfl | later
    · have total : (rest.map fewer).sum ≤ (rest.map more).sum := List.sum_le_sum others
      omega
    · have total := ih others later
      omega

/-- An entry that is begun is paid for. -/
theorem budget_begins (kept : ∀ key, Settled registry stakes key → Settled after next key) {key : Key}
    {node : Node} (found : contents.node? key = some node) (open' : ¬ Settled registry stakes key)
    (begun : Settled after next key) :
    contents.budget after next + (node.effort + 1) ≤ contents.budget registry stakes := by
  obtain ⟨origin, listed⟩ : ∃ origin, (key, origin) ∈ contents := by
    unfold node? at found
    split at found
    next same => exact ⟨_, OrderedMap.mem_of_get? same⟩
    next => cases found
  refine sum_gap (fun item _ => share_le (kept item.1)) listed ?_
  rw [share, share, if_pos begun, if_neg open', cost, found, Option.map_some, Option.getD_some, Nat.zero_add]

end Contents

namespace Machine

variable {contents : Contents} {roots : List Key} {others : Multiset Hold} {rest : Marks}
  {machine after : Machine} {world later : World}

/-- What a machine may still have to do. One that fails initializes nothing more. -/
noncomputable def weight (contents : Contents) (registry : Registry) (machine : Machine) : Nat :=
  machine.whole.effort +
    match machine.control with
    | .finish (.error _) => 0
    | _ => contents.budget registry (machine.whole.stakes none)

theorem weight_le (contents : Contents) (registry : Registry) (machine : Machine) :
    machine.weight contents registry ≤
      machine.whole.effort + contents.budget registry (machine.whole.stakes none) := by
  unfold weight
  split
  · exact Nat.le_add_right _ _
  · exact le_refl _

theorem weight_of_failing {registry : Registry} {error : ResolveError}
    (failing : machine.control = .finish (.error error)) :
    machine.weight contents registry = machine.whole.effort := by
  unfold weight
  rw [failing]
  rfl

/-- A step makes a machine lighter, or only looks for what may go on. -/
theorem step_weight (account : machine.Account contents roots others world) (minded : machine.Minded rest world)
    (step : machine.step world = some (after, later)) :
    after.weight contents later.registry < machine.weight contents world.registry ∨
      after.weight contents later.registry ≤ machine.weight contents world.registry ∧
        Looks (machine.marks + rest) machine.whole machine.credit machine.trip world (after, later) := by
  have goes := (step_advances account step).goes
  have costs := step_costs account minded step
  by_cases failing : ∃ error, machine.control = .finish (.error error)
  · obtain ⟨error, same⟩ := failing
    obtain ⟨still, less⟩ := step_fails same step
    left
    rwa [weight_of_failing same, weight_of_failing still]
  · have whole : machine.weight contents world.registry =
        machine.whole.effort + contents.budget world.registry (machine.whole.stakes none) := by
      unfold weight
      split
      next error same => exact absurd ⟨error, same⟩ failing
      next => rfl
    have light := after.weight_le contents later.registry
    have stored : ∀ key, (world.registry.get? key.type key).isSome → (later.registry.get? key.type key).isSome := by
      intro key known
      obtain ⟨value, found⟩ := Option.isSome_iff_exists.mp known
      exact Option.isSome_iff_exists.mpr ⟨value, goes.stored key value found⟩
    have settled : Keeps machine.whole (after, later) → ∀ key,
        Contents.Settled world.registry (machine.whole.stakes none) key →
          Contents.Settled later.registry (after.whole.stakes none) key := by
      intro keeps key known
      rcases known with complete | turns
      · exact .inl (stored key complete)
      · exact (keeps key turns).symm
    cases costs with
    | looks looks =>
      have keeps : Keeps machine.whole (after, later) := fun key turns => .inl (by rwa [looks.stakes])
      have budget := contents.budget_le (settled keeps)
      have effort := looks.effort
      dsimp only at effort
      right
      exact ⟨by omega, looks⟩
    | works less keeps =>
      have budget := contents.budget_le (settled keeps)
      dsimp only at less
      left
      omega
    | begins found less keeps fresh open' turn =>
      have undone : ¬ Contents.Settled world.registry (machine.whole.stakes none) _ :=
        not_or.mpr ⟨by rw [open']; simp, fresh⟩
      have budget := Contents.budget_begins (settled keeps) found undone (.inr turn)
      dsimp only at less
      left
      omega
    | fails same less =>
      have failed : after.weight contents later.registry = after.whole.effort := weight_of_failing same
      dsimp only at less
      left
      omega

end Machine

/-- One if a timer for the deadline has still to be set. -/
def Operation.unwatched (operation : Operation) : Nat :=
  match operation.deadline with
  | some ⟨_, _, none⟩ => 1
  | _ => 0

namespace Phase

/-- What an operation may still have to do. -/
noncomputable def weight (contents : Contents) (registry : Registry) : Phase → Nat
  | resting operation => operation.task.effort +
    contents.budget registry (operation.task.stakes none) + operation.unwatched + 1
  | looking operation machine => machine.weight contents registry + operation.unwatched + 1
  | returned _ | dropped => 0

/-- What is put by while an operation is looked at. -/
def credit : Phase → Nat
  | looking _ machine => machine.credit
  | resting _ | returned _ | dropped => 0

/-- Whether an operation is not over. -/
def Open : Phase → Prop
  | resting _ | looking _ _ => True
  | returned _ | dropped => False

theorem weight_mono {contents : Contents} {registry after : Registry} (stored : ∀ key : Key,
    (registry.get? key.type key).isSome → (after.get? key.type key).isSome) (phase : Phase) :
    phase.weight contents after ≤ phase.weight contents registry := by
  have budgets : ∀ stakes, contents.budget after stakes ≤ contents.budget registry stakes := fun stakes =>
    contents.budget_le fun key known => known.imp_left (stored key)
  cases phase with
  | resting operation =>
    have := budgets (operation.task.stakes none)
    simp only [weight]
    omega
  | looking operation machine =>
    have := budgets (machine.whole.stakes none)
    simp only [weight, Machine.weight]
    split <;> omega
  | returned | dropped => exact le_refl _

/-- What becomes of the phase of one operation where nothing gets lighter. -/
inductive Stays (action : Action) (id : Nat) (world : World) : Phase → Phase → Prop where
  | alone {phase : Phase} (look : action ≠ .look id) (step : action ≠ .step id) (drop : action ≠ .drop id) :
    Stays action id world phase phase
  | looks {operation : Operation} (look : action = .look id) (silent : .operation id ∉ world.ready) :
    Stays action id world (.resting operation)
      (.looking operation (.start operation.id operation.task))
  | steps {operation : Operation} {machine next : Machine} (step : action = .step id)
    (marks : next.marks = machine.marks) (stakes : next.whole.stakes none = machine.whole.stakes none)
    (nearer : next.trip < machine.trip) :
    Stays action id world (.looking operation machine) (.looking operation next)
  | rests {operation : Operation} {task : Task} (step : action = .step id) :
    Stays action id world (.looking operation ⟨operation.id, .rest task, []⟩) (.resting { operation with task })

end Phase

/-- The outcome for one operation: it gets lighter, or what it waits for and claims stays as it is. -/
inductive Phase.Eases (contents : Contents) (action : Action) (id : Nat) (rest : Marks) (world : World)
    (before after : Phase) (later : World) : Prop where
  | lighter (less : after.weight contents later.registry < before.weight contents world.registry)
  | stays (weight : after.weight contents later.registry ≤ before.weight contents world.registry)
    (kept : ∃ ready, later = { world with ready })
    (pressure : later.pressure (before.marks + rest) + after.credit <
        world.pressure (before.marks + rest) + before.credit ∨
      later.pressure (before.marks + rest) + after.credit ≤
        world.pressure (before.marks + rest) + before.credit ∧ Stays action id world before after)
    (marks : after.marks = before.marks)

namespace System

variable {before after system : System} {action : Action}

theorem watch_eases {contents : Contents} {operation : Operation} {task : Task} {rest : Marks} {world : World} :
    Phase.Eases contents (.step operation.id) operation.id rest world
      (.looking operation ⟨operation.id, .rest task, []⟩)
      (.of ({ operation with task }.watch world).1) ({ operation with task }.watch world).2 := by
  have heavy : (Phase.looking operation ⟨operation.id, .rest task, []⟩).weight contents world.registry =
      (Phase.resting { operation with task }).weight contents world.registry := rfl
  have rests : Phase.Eases contents (.step operation.id) operation.id rest world
      (.looking operation ⟨operation.id, .rest task, []⟩) (.resting { operation with task }) world :=
    .stays heavy.ge ⟨world.ready, rfl⟩ (.inr ⟨le_refl _, .rests rfl⟩) rfl
  unfold Operation.watch
  dsimp only
  split
  next => exact rests
  next deadline set =>
    split
    next => exact .lighter (Nat.succ_pos _)
    next =>
      obtain ⟨length, due, timer⟩ := deadline
      cases timer with
      | some timer => exact rests
      | none =>
        refine .lighter ?_
        have unset : operation.unwatched = 1 := by simp [Operation.unwatched, set]
        rw [heavy]
        simp only [Phase.of, Phase.weight, Operation.unwatched, set]
        exact Nat.lt_succ_self _

/-- What an action of one operation costs it. -/
theorem Changes.eases {id : Nat} {process : Process} {phase : Phase} {later : World} {others : Multiset Hold}
    {rest : Marks} (changes : Changes system action id process phase later)
    (orderly : process.Orderly system.registered)
    (ledger : Ledger system.registered system.world.registry system.world.fresh (process.holds + others))
    (alert : process.phase.Alert id system.world) (headed : rest.Headed)
    (watched : (process.phase.marks + rest).Watched system.world) :
    Phase.Eases system.registered action id rest system.world process.phase phase later := by
  cases changes with
  | look present =>
    rename_i call operation
    obtain ⟨named, _⟩ := alert
    subst named
    refine .stays (le_refl _) ⟨_, rfl⟩ ?_ rfl
    by_cases called : .operation operation.id ∈ system.world.ready
    · left
      have paid := pressure_erase
        (operation.task.marks [.operation operation.id] + operation.alarm + rest) called
      exact Nat.lt_of_lt_of_eq (Nat.lt_succ_self _) paid
    · right
      refine ⟨?_, .looks rfl called⟩
      have same : attended system.world operation.id = system.world := by rw [attended, List.erase_of_not_mem called]
      rw [same]
      exact le_refl _
  | step present step =>
    rename_i call operation machine next
    obtain ⟨named, placed, awake⟩ := alert
    rw [Phase.marks, add_assoc] at watched
    have minded : machine.Minded (operation.alarm + rest) system.world :=
      ⟨(Marks.headed_alarm operation).add headed, watched, awake⟩
    rcases Machine.step_weight (account_of_orderly orderly ledger) minded step with less | ⟨less, looks⟩
    · refine .lighter ?_
      simp only [Phase.weight]
      omega
    · have marks : next.marks = machine.marks := by
        rw [looks.marked, Machine.marks, Machine.step_operation step]
      refine .stays (by simp only [Phase.weight]; omega) looks.kept ?_ (by rw [Phase.marks, Phase.marks, marks])
      rw [Phase.marks, add_assoc]
      exact looks.less.imp_right fun near => ⟨near.1, .steps rfl marks looks.stakes near.2⟩
  | conclude present idle =>
    rename_i call operation machine
    obtain ⟨named, placed, _⟩ := alert
    cases Machine.step_idles idle with
    | rest =>
      dsimp only at placed
      subst named
      subst placed
      exact watch_eases
    | finish => exact .lighter (Nat.succ_pos _)
  | drop present => exact .lighter (Nat.succ_pos _)

theorem Changes.others {id other : Nat} {process : Process} {phase : Phase} {later : World}
    (changes : Changes system action id process phase later) (different : id ≠ other) :
    action ≠ .look other ∧ action ≠ .step other ∧ action ≠ .drop other := by
  cases changes <;> simp [different]

/-- What all operations may still have to do. -/
noncomputable def weight (system : System) : Nat :=
  (system.processes.map fun process => process.phase.weight system.registered system.world.registry).sum

/-- What the strands that are queued and the timers that are set may cost. -/
def pressure (system : System) : Nat :=
  system.world.pressure system.marks + (system.processes.map fun process => process.phase.credit).sum

/-- An action after which the registry and the timers are as they were, and no operation has changed what
it waits for or claims. -/
structure Stays (action : Action) (before after : System) : Prop where
  registered : after.registered = before.registered
  registry : after.world.registry = before.world.registry
  timers : after.world.timers = before.world.timers
  each : ∀ (id : Nat) (process : Process), before.processes[id]? = some process →
    ∃ phase, after.processes[id]? = some { process with phase } ∧
      process.phase.Stays action id before.world phase

theorem price_wakeEach {marks : Marks} (chains : List (List Strand)) (distinct : marks.numbers.Nodup)
    (headed : marks.Headed) (rooted : ∀ chain ∈ chains, marks.Rooted chain) (ready : List Strand) :
    ((Strand.wakeEach ready chains).map (price marks)).sum + chains.length ≤
      (ready.map (price marks)).sum + (chains.map toll).sum := by
  induction chains generalizing ready with
  | nil => exact le_refl _
  | cons chain rest ih =>
    have first := price_wake (fun id position outer inside => (price_of_fan distinct
      (headed.fan_mem (rooted chain List.mem_cons_self) inside) position).le) ready
    have later := ih (fun other member => rooted other (List.mem_cons_of_mem _ member)) (Strand.wake ready chain)
    rw [List.map_cons, List.sum_cons, List.length_cons]
    change ((Strand.wakeEach (Strand.wake ready chain) rest).map (price marks)).sum + (rest.length + 1) ≤ _
    omega

/-- A timer that fires is worth more than the strands it wakes. -/
theorem advance_pressure {marks : Marks} {world : World} (time : Nat) (watched : marks.Watched world)
    (headed : marks.Headed) : (world.advanceTo time).pressure marks < world.pressure marks ∨
      (world.advanceTo time).pressure marks = world.pressure marks ∧
        (world.advanceTo time).timers = world.timers := by
  have split : (world.timers.map fun timer => toll timer.strands).sum =
      ((world.fired time).map fun timer => toll timer.strands).sum +
        ((world.timers.filter fun timer => time < timer.due).map fun timer => toll timer.strands).sum := by
    have both := (List.filter_append_perm (fun timer : Timer => timer.due ≤ time) world.timers).map
      fun timer => toll timer.strands
    have sorted := (List.mergeSort_perm (world.timers.filter fun timer => timer.due ≤ time)
      fun a b => a.due ≤ b.due).map fun timer => toll timer.strands
    have late : (world.timers.filter fun timer => !decide (timer.due ≤ time)) =
        world.timers.filter fun timer => time < timer.due :=
      List.filter_congr fun timer _ => by rw [← decide_not, decide_eq_decide, Nat.not_le]
    rw [← both.sum_eq, List.map_append, List.sum_append, late, World.fired, sorted.sum_eq]
  have woken := price_wakeEach ((world.fired time).map Timer.strands) watched.distinct headed
    (fun chain listed => by
      obtain ⟨timer, fired, rfl⟩ := List.mem_map.mp listed
      exact headed _ (watched.timers timer (World.mem_fired.mp fired).1).1) world.ready
  rw [List.map_map, List.length_map] at woken
  rw [World.advanceTo_eq]
  by_cases none : world.fired time = []
  · right
    have same : (world.timers.filter fun timer => time < timer.due) = world.timers := by
      refine List.filter_eq_self.mpr fun timer set => ?_
      have early : timer ∉ world.fired time := by simp [none]
      rw [World.mem_fired, not_and] at early
      simpa using Nat.lt_of_not_le (early set)
    refine ⟨?_, same⟩
    simp only [World.pressure, same, none, List.map_nil]
    rfl
  · left
    have some := List.length_pos_iff.mpr none
    simp only [World.pressure]
    simp only [Function.comp_def] at woken
    omega

theorem weigh_mono (contents : Contents) {registry after : Registry} (stored : ∀ key : Key,
    (registry.get? key.type key).isSome → (after.get? key.type key).isSome) (processes : List Process) :
    (processes.map fun process => process.phase.weight contents after).sum ≤
      (processes.map fun process => process.phase.weight contents registry).sum :=
  List.sum_le_sum fun process _ => process.phase.weight_mono stored

/-- An action after which less is left to do, or as much and less that is called for, or else all stays as it
was. -/
def Eases (action : Action) (before after : System) : Prop :=
  after.weight < before.weight ∨ after.weight ≤ before.weight ∧
    (after.pressure < before.pressure ∨
      after.pressure ≤ before.pressure ∧ Stays action before after)

/-- An action of one operation does not add to what the others may still have to do. -/
theorem Changes.become_eases {id : Nat} {process : Process} {phase : Phase} {later : World}
    (changes : Changes before action id process phase later) (stored : ∀ key : Key,
      (before.world.registry.get? key.type key).isSome → (later.registry.get? key.type key).isSome)
    (eases : Phase.Eases before.registered action id (before.marksBeside id) before.world process.phase phase later) :
    Eases action before (before.become id phase later) := by
  have present := changes.present
  have others := weigh_mono before.registered stored (before.processes.eraseIdx id)
  have old := (sum_modify before.processes id present (fun process => { process with phase })
    fun process => process.phase.weight before.registered before.world.registry).1
  have new := (sum_modify before.processes id present (fun process => { process with phase })
    fun process => process.phase.weight before.registered later.registry).2
  obtain ⟨credit, debit⟩ := sum_modify before.processes id present (fun process => { process with phase })
    fun process => process.phase.credit
  dsimp only at old new credit debit
  have heavy : before.weight = (before.processes.map fun process =>
    process.phase.weight before.registered before.world.registry).sum := rfl
  have light : (before.become id phase later).weight = ((before.processes.modify id fun process =>
    { process with phase }).map fun process =>
      process.phase.weight before.registered later.registry).sum := rfl
  cases eases with
  | lighter less =>
    left
    omega
  | stays weight kept pressure marks =>
    right
    have same : (before.become id phase later).marks = before.marks := by
      rw [marks_become present, marks, marks_split present]
    have here : before.pressure = before.world.pressure (process.phase.marks + before.marksBeside id) +
        (before.processes.map fun process => process.phase.credit).sum := by
      rw [System.pressure, marks_split present]
    have there : (before.become id phase later).pressure =
        later.pressure (process.phase.marks + before.marksBeside id) +
          ((before.processes.modify id fun process => { process with phase }).map fun process =>
            process.phase.credit).sum := by
      rw [System.pressure, same, marks_split present]
      rfl
    refine ⟨by omega, pressure.imp (fun less => by omega) fun both => ⟨by omega, ?_⟩⟩
    obtain ⟨ready, rfl⟩ := kept
    refine ⟨rfl, rfl, rfl, fun other changed found => ?_⟩
    simp only [become, List.getElem?_modify]
    split
    next equal =>
      subst equal
      rw [present] at found
      cases found
      exact ⟨phase, by rw [present]; rfl, both.2⟩
    next different =>
      refine ⟨changed.phase, by simpa using found, ?_⟩
      have apart := changes.others different
      exact .alone apart.1 apart.2.1 apart.2.2

/-- The passing of time gives nobody more to do. -/
theorem advance_eases (time : Nat) (alert : before.Alert) :
    Eases (.advance time) before { before with world := before.world.advanceTo time } := by
  have registry := (World.Calm.advanceTo before.world time).registry
  have same : ∀ other : World, { before with world := other }.marks = before.marks := fun _ => rfl
  have weight : System.weight { before with world := before.world.advanceTo time } = before.weight := by
    rw [System.weight, registry]
    rfl
  refine .inr ⟨weight.le, ?_⟩
  rcases advance_pressure time alert.watched before.marks_headed with less | ⟨equal, timers⟩
  · left
    simp only [System.pressure, same]
    omega
  · right
    simp only [System.pressure, same]
    refine ⟨by omega, rfl, registry, timers, fun id process present => ⟨process.phase, present, .alone ?_ ?_ ?_⟩⟩
    all_goals exact fun same => nomatch same

/-- Every action eases a system in which nothing is registered and no call comes. -/
theorem Acts.eases (acts : Acts before action after) (orderly : before.Orderly) (alert : before.Alert)
    (quiet : Quiet action) (old : ∀ call, action ≠ .start call) : Eases action before after := by
  cases acts with
  | registered => exact quiet.elim
  | rejected => exact quiet.elim
  | start => exact absurd rfl (old _)
  | becomes changes =>
    rename_i id process phase later
    have present := changes.present
    obtain ⟨own, ledger⟩ := orderly.process present
    have watched := alert.watched
    rw [marks_split present] at watched
    have goes := (changes.moves own ledger).goes
    refine changes.become_eases (fun key known => ?_) (changes.eases own ledger (alert.each id process present)
      (before.marksBeside_headed id) watched)
    obtain ⟨value, found⟩ := Option.isSome_iff_exists.mp known
    exact Option.isSome_iff_exists.mpr ⟨value, goes.stored key value found⟩
  | advance forward => exact advance_eases _ alert

end System

end Blueprint
