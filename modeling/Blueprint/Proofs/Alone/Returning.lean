import Blueprint.Proofs.Agreement
import Blueprint.Proofs.Alone.Ending
import Blueprint.Proofs.Machine.Failing
/-! A resolution that is alone returns the value that sequential evaluation gives to its node, if there is one. What
has a value leads only to what has one, so an operation that would wait for ever would wait for entries each of
which waits for another one. -/

namespace Blueprint

/-- A simple task has a value. -/
def valued (lookup : Lookup) : Demand
  | _, .node node _ => (node.evaluate lookup).isSome
  | _, .shell shell _ | _, .variant _ shell _ => (shell.evaluate lookup).isSome
  | _, .field _ _ slot _ => (slot.evaluate lookup).isSome
  | _, .waiting fetch _ => (lookup fetch.key).isSome
  | _, .forever => False
  | _, _ => True

/-- Where all is there, each item is. -/
theorem isSome_of_collect {α β : Type} {items : List α} {change : α → Option β}
    (all : (collect (items.map change)).isSome) {item : α} (member : item ∈ items) : (change item).isSome := by
  rw [Option.isSome_iff_ne_none] at all ⊢
  intro absent
  exact all (collect_eq_none_iff.mpr (List.mem_map.mpr ⟨item, member, absent⟩))

/-- What has a value hands on only what has one. -/
theorem valued_handedOn (contents : Contents) : (valued (contents.valueOf [])).HandedOn contents where
  literal _ _ _ := rfl
  nested known := known
  record known field planned := by
    have all : ((Shell.record _ _).evaluate (contents.valueOf [])).isSome := known
    rw [Shell.evaluate_record, Option.isSome_map] at all
    have own := isSome_of_collect all planned
    rwa [Option.isSome_map] at own
  union known := by
    have all : ((Shell.variant _ _ _).evaluate (contents.valueOf [])).isSome := known
    rwa [Shell.evaluate, Option.isSome_map] at all
  variant known := known
  stalled known := by
    have all : ((Shell.stalled _ _).evaluate (contents.valueOf [])).isSome := known
    simp [Shell.evaluate] at all
  delayed known := known
  required known := known
  optional known := by
    have all : ((Slot.optional (some _)).evaluate (contents.valueOf [])).isSome := known
    rwa [Slot.evaluate, Option.isSome_map] at all
  repeated known _ inside := by
    have all : ((Slot.repeated _).evaluate (contents.valueOf [])).isSome := known
    rw [Slot.evaluate, Option.isSome_map, evaluateItems_eq_map] at all
    exact isSome_of_collect all (List.getElem_mem inside)
  keyed known _ inside := by
    have all : ((Slot.keyed _).evaluate (contents.valueOf [])).isSome := known
    rw [Slot.evaluate, Option.isSome_map, evaluatePairs_eq_map] at all
    have both := isSome_of_collect all (List.getElem_mem inside)
    obtain ⟨pair, found⟩ := Option.isSome_iff_exists.mp both
    obtain ⟨key, first, rest⟩ := Option.bind_eq_some_iff.mp found
    obtain ⟨value, second, _⟩ := Option.map_eq_some_iff.mp rest
    exact ⟨Option.isSome_of_eq_some first, Option.isSome_of_eq_some second⟩
  fetch known _ _ := known
  begin {_ fetch _ node} known found := by
    have has : (contents.valueOf [] fetch.key).isSome := known
    rwa [Contents.valueOf_node found] at has

namespace Phase

/-- An operation without a time limit, which fails only at a place. -/
def Timeless : Phase → Prop
  | resting operation => operation.deadline = none
  | looking operation machine => operation.deadline = none ∧ ∀ error, machine.Fails error → error.path?.isSome
  | returned (.error error) => error.path?.isSome
  | returned (.ok _) | dropped => True

end Phase

namespace System

variable {first last system : System} {action : Action}

/-- What every action of an operation keeps of its phase holds of all operations after a run. -/
theorem Run.phases {holds : Phase → Prop} (run : Run Action.Continues first last) (regular : first.Regular)
    (kept : ∀ {between : System} {action : Action} {id : Nat} {process : Process} {phase : Phase} {later : World}
      {others : Multiset Hold}, Changes between action id process phase later →
      between.registered = first.registered → process.Orderly between.registered →
      Ledger between.registered between.world.registry between.world.fresh (process.holds + others) →
      holds process.phase → holds phase)
    (each : ∀ process ∈ first.processes, holds process.phase) : ∀ process ∈ last.processes, holds process.phase := by
  induction run with
  | refl => exact each
  | @tail between _ run step ih =>
    obtain ⟨action, continues, result⟩ := step
    have same : between.registered = first.registered := Run.registered (fun _ => Action.Continues.quiet) run
    cases act?_acts result with
    | registered | rejected | start => exact continues.elim
    | advance => exact ih
    | becomes changes =>
      obtain ⟨own, ledger⟩ := (Run.regular run regular).orderly.process changes.present
      have moved := kept changes same own ledger (ih _ (List.mem_of_getElem? changes.present))
      intro other member
      rcases mem_modify changes.present member with old | rfl
      · exact ih other old
      · exact moved

/-- What operations are about to do goes on to meet a condition that is handed on. -/
theorem Run.every {demand : Demand} (run : Run Action.Continues first last) (regular : first.Regular)
    (handed : demand.HandedOn first.registered) (every : ∀ process ∈ first.processes, process.phase.Every demand) :
    ∀ process ∈ last.processes, process.phase.Every demand :=
  run.phases regular (fun changes same own ledger before => changes.every (same ▸ handed) own ledger before) every

theorem Changes.timeless {id : Nat} {process : Process} {phase : Phase} {later : World} {others : Multiset Hold}
    (changes : Changes system action id process phase later) (orderly : process.Orderly system.registered)
    (ledger : Ledger system.registered system.world.registry system.world.fresh (process.holds + others))
    (timeless : process.phase.Timeless) : phase.Timeless := by
  cases changes with
  | look present => exact ⟨timeless, fun error fails => by cases fails⟩
  | @step _ _ operation machine next later present step =>
    refine ⟨timeless.1, fun error fails => ?_⟩
    by_cases already : machine.Fails error
    · exact timeless.2 error already
    · obtain ⟨task, _, path, place, _, arises⟩ :=
        Machine.step_fault (account_of_orderly orderly ledger) already step fails
      exact Option.isSome_of_eq_some arises.path?
  | @conclude _ _ operation machine present ended =>
    obtain ⟨number, control, layers⟩ := machine
    cases control with
    | poll task => cases ended
    | rest task =>
      cases layers with
      | cons => cases ended
      | nil =>
        have same : Operation.conclude operation ⟨number, .rest task, []⟩ system.world =
            (.waiting { operation with task }, system.world) := by
          simp only [Operation.conclude, Operation.watch, timeless.1]
        rw [same]
        exact timeless.1
    | finish result =>
      cases layers with
      | cons => cases result <;> cases ended
      | nil =>
        cases result with
        | ok value => trivial
        | error error => exact timeless.2 error rfl
  | drop => trivial

theorem Run.timeless (run : Run Action.Continues first last) (regular : first.Regular)
    (timeless : ∀ process ∈ first.processes, process.phase.Timeless) :
    ∀ process ∈ last.processes, process.phase.Timeless :=
  run.phases regular (fun changes _ own ledger before => changes.timeless own ledger before) timeless

/-- Operations go on to the values of their calls. -/
theorem Run.meets (run : Run Action.Continues first last) (regular : first.Regular) (faithful : first.Faithful 0) :
    last.Faithful 0 := by
  induction run with
  | refl => exact faithful
  | tail run step ih =>
    obtain ⟨action, continues, result⟩ := step
    exact (act?_acts result).faithful continues.quiet (Run.regular run regular).orderly ih

section Solo

variable {contents : Contents} {call : Call} {rested : Operation} {between : World}

/-- An operation that waits, alone, and is never called stands in queues. -/
theorem Regular.stands (regular : (solo contents call (.resting rested) between).Regular) {demand : Demand}
    (every : rested.task.Every demand none) (silent : rested.called? between = none) :
    Process.Stands demand contents between 0 ⟨call, .resting rested⟩ rested.task := by
  have alert := regular.alert.each 0 _ rfl
  have named : rested.id = 0 := alert.1
  obtain ⟨ready, timers⟩ := silent_of_called? silent named
  have stirred : ∀ {chain : List Strand} {mark : Mark}, (chain, mark) ∈ rested.task.marks [.operation 0] →
      ¬ mark.Stirred between chain := fun member stirred =>
    ready (Phase.Alert.called alert (Multiset.mem_add.mpr (.inl (named.symm ▸ member))) stirred)
  refine ⟨rfl, (regular.orderly.each _ (List.mem_singleton_self _)).sound, every, fun mark member => ?_, fun strands key ticket member => ?_⟩
  · obtain ⟨chain, kind⟩ := mark
    cases kind with
    | seat | fan => trivial
    | idle => exact stirred member trivial
    | timer id due =>
      refine stirred member ?_
      rw [Mark.Stirred, timers]
      exact List.not_mem_nil
  · by_contra missing
    exact stirred member missing

/-- No operation that is alone waits for ever if all that it does has a value. -/
theorem Regular.not_silent (regular : (solo contents call (.resting rested) between).Regular)
    (every : rested.task.Every (valued (contents.valueOf [])) none) : rested.called? between ≠ none := by
  intro silent
  have standing := regular.stands every silent
  have stands : (solo contents call (.resting rested) between).Stands
      fun contents _ => valued (contents.valueOf []) := by
    intro id process present
    cases id with
    | zero =>
      cases present
      exact .inr ⟨_, standing⟩
    | succ id => cases present
  -- nothing that has a value stands still, on behalf of whatever entry it is done
  have living : (solo contents call (.resting rested) between).Living
      (fun contents _ => valued (contents.valueOf [])) fun _ => True :=
    ⟨fun _ _ _ _ => trivial, fun _ _ _ _ stalled => stalled⟩
  exact stands.not_living regular.orderly living (List.mem_singleton_self _) (fun stalled => stalled)
    (fun _ _ => trivial) rested.task standing

end Solo

section Resolving

variable {contents : Contents} {registry : Registry} {config : Config} {node : Node}

/-- The resolution of a node that is about to be looked at for the first time, alone. -/
abbrev beginning (contents : Contents) (registry : Registry) (config : Config) (node : Node) : System :=
  solo contents (.resolve config node) (.looking (Operation.resolve 0 config node (.initial registry))
    (.start 0 (Operation.resolve 0 config node (.initial registry)).task)) (.initial registry)

variable (regular : (resting contents registry).Regular)

include regular

theorem Regular.beginning (config : Config) (node : Node) : (beginning contents registry config node).Regular :=
  regular.act (act?_start config node registry)

theorem Regular.beginning_meets {last : System}
    (run : Run Action.Continues (System.beginning contents registry config node) last) : last.Faithful 0 :=
  run.meets (regular.beginning config node) fun id process _ present => by
    cases id with
    | zero =>
      cases present
      exact Call.start_meets (.resolve config node) 0 (.initial registry) _
    | succ id => cases present

/-- What a resolution that is alone returns, it returns among the runs of a system. -/
theorem Regular.returned {result : Except ResolveError Value} {world : World}
    (returns : Resolver.Returns config registry node result world) :
    Run Action.Continues (System.beginning contents registry config node)
      (solo contents (.resolve config node) (.returned result) world) :=
  (regular.beginning config node).run_of_comes (Resolver.returns_iff_comes.mp returns)

/-- A value that is returned is the value of the node. -/
theorem Regular.evaluate_of_returns {value : Value} {world : World}
    (returns : Resolver.Returns config registry node (.ok value) world) : contents.evaluate node = some value :=
  regular.beginning_meets (regular.returned returns) 0 _ (Nat.zero_le 0) rfl

/-- Where nobody is at work, a resolution without a time limit returns a value if sequential evaluation gives it
to the node, and only then. -/
theorem Regular.returns_ok_iff (limitless : config.deadline = none) (value : Value) :
    (∃ world, Resolver.Returns config registry node (.ok value) world) ↔ contents.evaluate node = some value := by
  refine ⟨fun ⟨world, returns⟩ => regular.evaluate_of_returns returns, fun has => ?_⟩
  have begins := regular.beginning config node
  rcases begins.ends with ⟨result, later, comes⟩ | ⟨rested, between, run, silent⟩
  · have run := begins.run_of_comes comes
    have meets := regular.beginning_meets run 0 _ (Nat.zero_le 0) rfl
    have placed := run.timeless begins (List.forall_mem_singleton.mpr
      ⟨by simp [Operation.resolve, limitless], fun error fails => by cases fails⟩) _ (List.mem_singleton_self _)
    cases result with
    | ok own =>
      have same : contents.evaluate node = some own := meets
      rw [has, Option.some.injEq] at same
      exact ⟨later, Resolver.returns_iff_comes.mpr (same ▸ comes)⟩
    | error error =>
      have absent : contents.evaluate node = none := by
        cases error with
        | deadlineExceeded length => cases placed
        | _ => exact meets
      rw [has] at absent
      cases absent
  · have every := run.every begins (valued_handedOn contents) (List.forall_mem_singleton.mpr
      (Option.isSome_of_eq_some has)) _ (List.mem_singleton_self _)
    exact absurd silent ((run.regular begins).not_silent every)

end Resolving

end System

end Blueprint
