import Blueprint.Session.Running
/-!
Sessions: a script run from beginning to end. Everything that can run does so before time moves;
then the clock goes to the next timer. A session whose work does not end by the horizon is cut.
-/

namespace Blueprint.Session

/-- Milliseconds after which a session is cut. -/
def horizon : Nat := 10000000

/-- How often a session may be woken. -/
def wakeups : Nat := 1000000000000000

/-- The state in which the session can go on, at once or when the next timer is due; none if that
is not before the horizon. -/
def nextTurn? (state : State) : Option State :=
  if horizon ≤ state.world.now then none
  else if self ∈ state.world.ready then some state
  else
    match state.world.nextDue? with
    | some due =>
      if due ≤ horizon then some { state with world := state.world.advanceTo due } else none
    | none => none

/-- Look at the steps that wait whenever the session is woken. -/
def runFrom (fuel : Nat) (sequence : Sequence) (state : State) : State :=
  match fuel, nextTurn? state with
  | 0, _ | _, none => state.record .cut
  | fuel + 1, some state =>
    let world := { state.world with ready := state.world.ready.erase self }
    match pollSequence { state with world } sequence with
    | (none, state) => state
    | (some sequence, state) => runFrom fuel sequence state

/-- The log of a script. -/
def run (script : List Step) : Array Record :=
  match startSteps .initial script with
  | (none, state) => state.log
  | (some sequence, state) => (runFrom wakeups sequence state).log

end Blueprint.Session
