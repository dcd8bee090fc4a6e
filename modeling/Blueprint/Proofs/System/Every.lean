import Blueprint.Proofs.Machine.Every
import Blueprint.Proofs.System.Orderly
/-! What holds of all that operations are about to do. A condition that may depend on what is registered and on
the call, that the work of every call begins with, that is handed on from task to task, and that more
registrations do not break, is met in every state that can be reached. -/

namespace Blueprint

/-- A condition on what operations do, as it depends on what is registered and on the call. -/
structure Demand.Lasting (demand : Contents → Call → Demand) : Prop where
  begins : ∀ contents (call : Call) id world, (call.operation id world).task.Every (demand contents call) none
  handed : ∀ contents call, (demand contents call).HandedOn contents
  wider : ∀ {contents more : Contents} {call owner task}, contents.Extends more →
    demand contents call owner task → demand more call owner task

/-- The phase of an operation is over, or all that it is about to do meets a condition. -/
def Phase.Every (demand : Demand) : Phase → Prop
  | resting operation => operation.task.Every demand none
  | looking _ machine => machine.Every demand
  | returned _ | dropped => True

theorem Machine.Every.mono {demand other : Demand} (weaker : ∀ owner task, demand owner task → other owner task)
    {machine : Machine} (every : machine.Every demand) : machine.Every other := by
  unfold Machine.Every at every ⊢
  split at every
  · trivial
  · exact Task.Every.mono weaker every

theorem Phase.Every.mono {demand other : Demand} (weaker : ∀ owner task, demand owner task → other owner task)
    {phase : Phase} (every : phase.Every demand) : phase.Every other := by
  cases phase with
  | resting operation => exact Task.Every.mono weaker every
  | looking operation machine => exact Machine.Every.mono weaker every
  | returned | dropped => trivial

/-- A look ends in one of two ways: the operation rests with its task, or it is over, with the result of its
machine or because its time is. -/
theorem Operation.conclude_cases {operation : Operation} {machine : Machine} {world : World}
    (idle : machine.step world = none) :
    (∃ task deadline later, machine.control = .rest task ∧ machine.layers = [] ∧
      operation.conclude machine world = (.waiting { operation with task, deadline }, later)) ∨
    ∃ result later, operation.conclude machine world = (.over result, later) ∧
      (machine.control = .finish result ∨ ∃ length, result = .error (.deadlineExceeded length)) := by
  cases Machine.step_idles idle with
  | @rest number task =>
    unfold conclude watch
    dsimp only
    split
    next unset => exact .inl ⟨task, _, world, rfl, rfl, by rw [unset]⟩
    next deadline set =>
      split
      next late => exact .inr ⟨_, _, rfl, .inr ⟨_, rfl⟩⟩
      next early =>
        left
        split
        next => exact ⟨task, _, world, rfl, rfl, rfl⟩
        next => exact ⟨task, _, _, rfl, rfl, rfl⟩
  | finish => exact .inr ⟨_, _, rfl, .inl rfl⟩

namespace System

variable {before after system : System} {action : Action}

theorem Changes.every {demand : Demand} {id : Nat} {process : Process} {phase : Phase} {later : World}
    {others : Multiset Hold} (changes : Changes system action id process phase later)
    (handed : demand.HandedOn system.registered) (orderly : process.Orderly system.registered)
    (ledger : Ledger system.registered system.world.registry system.world.fresh (process.holds + others))
    (every : process.phase.Every demand) : phase.Every demand := by
  cases changes with
  | look present => exact every
  | step present step => exact Machine.step_every handed (account_of_orderly orderly ledger) every step
  | conclude present idle =>
    rename_i call operation machine
    rcases Operation.conclude_cases idle with
      ⟨task, deadline, later, rests, bare, same⟩ | ⟨result, later, same, _⟩
    · obtain ⟨number, control, layers⟩ := machine
      cases rests
      cases bare
      rw [same]
      exact every
    · rw [same]
      trivial
  | drop present => trivial

/-- What all operations are about to do meets a condition. -/
def Every (demand : Contents → Call → Demand) (system : System) : Prop :=
  ∀ process ∈ system.processes, process.phase.Every (demand system.registered process.call)

theorem Acts.every {demand : Contents → Call → Demand} (lasting : Demand.Lasting demand)
    (acts : Acts before action after) (orderly : before.Orderly) (every : before.Every demand) :
    after.Every demand := by
  cases acts with
  | registered =>
    exact fun process member =>
      (every process member).mono fun owner task => lasting.wider (Contents.extends_append _ _)
  | rejected | advance => exact every
  | start outermost =>
    rename_i call
    intro process member
    rcases List.mem_append.mp member with old | new
    · exact every process old
    · rw [List.mem_singleton] at new
      subst new
      exact lasting.begins _ call _ _
  | becomes changes =>
    rename_i id process phase later
    obtain ⟨own, ledger⟩ := orderly.process changes.present
    have moved := changes.every (lasting.handed _ _) own ledger
      (every process (List.mem_of_getElem? changes.present))
    intro other member
    rcases mem_modify changes.present member with old | rfl
    · exact every other old
    · exact moved

theorem Reachable.every {demand : Contents → Call → Demand} (lasting : Demand.Lasting demand)
    (reachable : system.Reachable) : system.Every demand := by
  have both := @Reachable.invariant (fun system => system.Orderly ∧ system.Every demand)
    ⟨initial_orderly, fun process member => absurd member List.not_mem_nil⟩ fun _ _ _ known result =>
      ⟨((act?_acts result).orderly known.1).1, (act?_acts result).every lasting known.1 known.2⟩
  exact (both reachable).2

end System

end Blueprint
