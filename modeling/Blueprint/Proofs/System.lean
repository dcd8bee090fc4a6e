import Mathlib.Logic.Relation
import Blueprint.Proofs.Contents
import Blueprint.Session.Step
/-! Operations that share a registry and run interleaved. Each operation rests or is being looked at; a
look is a sequence of steps, and steps of different operations may come in any order. Between them
keys are registered, operations begin and are dropped, and time goes on. Nothing is said here about
who is looked at and when. -/

namespace Blueprint

/-- What a caller asks for: the resolution of a node from the root, or some work under a scope. -/
inductive Call where
  | resolve (config : Config) (node : Node)
  | within (scope : Scope) (work : Session.Work)

/-- What has become of an operation. -/
inductive Phase where
  | resting (operation : Operation)
  | looking (operation : Operation) (machine : Machine)
  | returned (result : Except ResolveError Value)
  /-- its caller gave it up -/
  | dropped

structure Process where
  call : Call
  phase : Phase

/-- Operations on one registry. -/
structure System where
  /-- what was registered, as it was registered -/
  registered : Contents
  world : World
  /-- in the order in which they began; the position is the number of the operation -/
  processes : List Process

/-- What can happen next. -/
inductive Action where
  | register (key : Key) (origin : Origin)
  | start (call : Call)
  /-- look at an operation that rests -/
  | look (id : Nat)
  /-- one step of an operation that is being looked at -/
  | step (id : Nat)
  /-- give up an operation that rests -/
  | drop (id : Nat)
  | advance (time : Nat)

namespace Call

/-- The scope in which the work of a call begins. -/
def scope : Call → Scope
  | resolve config _ => .root config
  | within scope _ => scope

/-- The operation that carries out a call. -/
def operation (call : Call) (id : Nat) (world : World) : Operation :=
  match call with
  | resolve config node => .resolve id config node world
  | within scope work => .ofTask id (work.task scope)

/-- The value that a call should have, given the values of references. -/
def evaluate (lookup : Key → Option Value) : Call → Option Value
  | resolve _ node => node.evaluate lookup
  | within _ (.node node) => node.evaluate lookup
  | within _ (.field _ _ slot) => slot.evaluate lookup
  | within _ (.variant tag shell) => (shell.evaluate lookup).map (.variant tag)

/-- The keys that a call refers to in its own tree. -/
def references : Call → List Key
  | resolve _ node => node.references
  | within _ (.node node) => node.references
  | within _ (.field _ _ slot) => slot.references
  | within _ (.variant _ shell) => shell.references

end Call

/-- What becomes of an operation when a look at it ends. -/
def Phase.of : Operation.Progress → Phase
  | .waiting operation => .resting operation
  | .over result => .returned result
  | .stopped => .dropped

namespace System

/-- Nothing registered and nothing begun. -/
def initial : System := ⟨[], .initial .empty, []⟩

/-- The phase of an operation, if it has begun. -/
def phase? (system : System) (id : Nat) : Option Phase :=
  (system.processes[id]?).map Process.phase

/-- The operation with a number goes over into another phase, in another world. -/
def become (system : System) (id : Nat) (phase : Phase) (world : World) : System :=
  { system with
    world
    processes := system.processes.modify id fun process => { process with phase } }

/-- The world in which the wish of an operation to be looked at has been met. -/
def attended (world : World) (id : Nat) : World :=
  { world with ready := world.ready.erase (.operation id) }

/-- The state after an action, if the action is possible. A registration of a key that is taken is
told and changes nothing else. -/
def act? (system : System) : Action → Option System
  | .register key origin =>
    match system.world.register key (origin.entry key) with
    | (.ok _, world) =>
      some { system with world, registered := system.registered ++ [(key, origin)] }
    | (.error _, world) => some { system with world }
  | .start call =>
    if call.scope.owner = none then
      let id := system.processes.length
      let operation := call.operation id system.world
      let process : Process := ⟨call, .looking operation (.start id operation.task)⟩
      some { system with processes := system.processes ++ [process] }
    else none
  | .look id =>
    match system.phase? id with
    | some (.resting operation) =>
      some (system.become id (.looking operation (.start id operation.task))
        (attended system.world id))
    | _ => none
  | .step id =>
    match system.phase? id with
    | some (.looking operation machine) =>
      match machine.step system.world with
      | some (machine, world) => some (system.become id (.looking operation machine) world)
      | none =>
        let (progress, world) := operation.conclude machine system.world
        some (system.become id (.of progress) world)
    | _ => none
  | .drop id =>
    match system.phase? id with
    | some (.resting operation) => some (system.become id .dropped (operation.cancel system.world))
    | _ => none
  | .advance time =>
    if system.world.now ≤ time then some { system with world := system.world.advanceTo time }
    else none

/-- One action of an allowed kind leads from the first state to the second. -/
def Step (allowed : Action → Prop) (before after : System) : Prop :=
  ∃ action, allowed action ∧ before.act? action = some after

/-- A run of allowed actions leads from the first state to the second. -/
def Run (allowed : Action → Prop) : System → System → Prop :=
  Relation.ReflTransGen (Step allowed)

/-- The states that some run from the initial state leads to. -/
def Reachable (system : System) : Prop :=
  Run (fun _ => True) initial system

/-- Whatever happens, nothing is registered. -/
def Quiet : Action → Prop
  | .register _ _ => False
  | _ => True

/-- What holds at first and is kept by every action holds in every state that can be reached. -/
theorem Reachable.invariant {holds : System → Prop} (first : holds initial)
    (kept : ∀ before action after, holds before → before.act? action = some after → holds after)
    {system : System} (reachable : system.Reachable) : holds system := by
  induction reachable with
  | refl => exact first
  | tail _ step ih =>
    obtain ⟨action, _, result⟩ := step
    exact kept _ action _ ih result

theorem Run.reachable {allowed : Action → Prop} {before after : System} (run : Run allowed before after)
    (reachable : before.Reachable) : after.Reachable := by
  induction run with
  | refl => exact reachable
  | tail _ step ih =>
    obtain ⟨action, _, result⟩ := step
    exact ih.tail ⟨action, trivial, result⟩

/-- The state after some actions, one after another, if all of them are possible. -/
def perform (system : System) : List Action → Option System
  | [] => some system
  | action :: rest => (system.act? action).bind fun next => next.perform rest

/-- The state that some actions lead to from the beginning. -/
def following (actions : List Action) : System :=
  (initial.perform actions).getD initial

theorem run_of_perform {allowed : Action → Prop} {before after : System} (actions : List Action)
    (each : ∀ action ∈ actions, allowed action) (result : before.perform actions = some after) :
    Run allowed before after := by
  induction actions generalizing before with
  | nil =>
    cases result
    exact .refl
  | cons action rest ih =>
    obtain ⟨next, first, later⟩ := Option.bind_eq_some_iff.mp result
    exact (Relation.ReflTransGen.single ⟨action, each action List.mem_cons_self, first⟩).trans
      (ih (fun other member => each other (List.mem_cons_of_mem _ member)) later)

end System

end Blueprint
