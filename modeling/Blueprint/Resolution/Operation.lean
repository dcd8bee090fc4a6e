import Blueprint.Resolution.Machine
/-!
Operations: what a caller starts and waits for. An operation is a task, with a deadline if it is a
whole resolution under a configuration that sets one. The work is looked at before the clock, so
work that is ready when the deadline comes still counts.
-/

namespace Blueprint

/-- A limit of time for an operation and the timer that watches it, once that is set. -/
structure Deadline where
  length : Nat
  due : Nat
  timer : Option Nat
  deriving DecidableEq, Repr

/-- An operation that is not over. A whole resolution tells the observer how it ends. -/
structure Operation where
  id : Nat
  task : Task
  deadline : Option Deadline
  whole : Bool

namespace Operation

/-- How far an operation has come. -/
inductive Progress where
  | waiting (operation : Operation)
  | over (result : Except ResolveError Value)
  /-- it was stopped after too many steps -/
  | stopped

/-- An operation that carries out one task, without a deadline of its own. -/
def ofTask (id : Nat) (task : Task) : Operation := ⟨id, task, none, false⟩

/-- The resolution of a node from the root, under the deadline of the configuration. -/
def resolve (id : Nat) (config : Config) (node : Node) (world : World) : Operation :=
  { id, task := .node node (.root config)
    deadline := config.deadline.map fun length => ⟨length, world.now + length, none⟩
    whole := true }

/-- Tell how a resolution ended. -/
def announce (whole : Bool) (result : Except ResolveError Value) (world : World) : World :=
  if whole then
    match result with
    | .ok _ => world.emit .resolved
    | .error error => world.emit (.failed error)
  else world

/-- The operation is over and its timer is not needed any more. -/
def close (operation : Operation) (result : Except ResolveError Value) (world : World) :
    Progress × World :=
  let world := match operation.deadline.bind Deadline.timer with
    | some timer => world.dropTimer timer
    | none => world
  (.over result, announce operation.whole result world)

/-- The work waits; the deadline is looked at, and watched from now on. -/
def watch (operation : Operation) (world : World) : Progress × World :=
  match operation.deadline with
  | none => (.waiting operation, world)
  | some deadline =>
    if deadline.due ≤ world.now then
      operation.close (.error (.deadlineExceeded deadline.length)) (world.cancel operation.task)
    else
      match deadline.timer with
      | some _ => (.waiting operation, world)
      | none =>
        let (timer, world) := world.setTimer deadline.due [.operation operation.id]
        (.waiting { operation with deadline := some { deadline with timer := some timer } }, world)

/-- What an operation has come to when a look at it ends. -/
def conclude (operation : Operation) (machine : Machine) (world : World) : Progress × World :=
  match machine with
  | ⟨_, .rest task, []⟩ => { operation with task }.watch world
  | ⟨_, .finish result, []⟩ => operation.close result world
  | _ => (.stopped, world)

/-- Look at an operation until it waits or is over, for at most `fuel` steps. -/
def poll (fuel : Nat) (operation : Operation) (world : World) : Progress × World :=
  match (Machine.start operation.id operation.task).run fuel world with
  | some (machine, world) => operation.conclude machine world
  | none => (.stopped, world)

/-- Drop an operation. -/
def cancel (operation : Operation) (world : World) : World :=
  let world := world.cancel operation.task
  match operation.deadline.bind Deadline.timer with
  | some timer => world.dropTimer timer
  | none => world

/-- Look at an operation that is alone in its world whenever it is woken, for at most `steps` steps
each time, until it is over; none if it is not over after `fuel` looks. -/
def runAlone (steps fuel : Nat) (operation : Operation) (world : World) :
    Option (Except ResolveError Value × World) :=
  match fuel with
  | 0 => none
  | fuel + 1 =>
    match operation.poll steps world with
    | (.over result, world) => some (result, world)
    | (.stopped, _) => none
    | (.waiting operation, world) =>
      let self := Strand.operation operation.id
      if self ∈ world.ready then
        runAlone steps fuel operation { world with ready := world.ready.erase self }
      else
        match world.nextDue? with
        | none => none
        | some due =>
          let world := world.advanceTo due
          runAlone steps fuel operation { world with ready := world.ready.erase self }

end Operation

end Blueprint
