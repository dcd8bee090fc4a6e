import Blueprint.Resolution.Event
import Blueprint.Registry
/-!
The world that resolutions run in: the registry, the clock with its timers, the strands that have
been woken, the counters of instruments, and what was told to the observer. Time is virtual. It
stands still while anything can run and then goes straight to the next timer.
-/

namespace Blueprint

/-- An alarm, by a number of its own, and the strands to wake when it is due. -/
structure Timer where
  id : Nat
  due : Nat
  strands : List Strand
  deriving DecidableEq, Repr

structure World where
  registry : Registry
  /-- milliseconds since the start -/
  now : Nat
  /-- in the order in which they were set -/
  timers : List Timer
  /-- strands that have been woken, in order -/
  ready : List Strand
  /-- the next number for a timer, a waiter or a fan-out -/
  fresh : Nat
  /-- how often each instrument was started -/
  starts : List (Nat × Nat)
  /-- what was told, oldest first -/
  events : List Event

namespace World

/-- A world at time zero with nothing in it but a registry. -/
def initial (registry : Registry) : World := ⟨registry, 0, [], [], 0, [], []⟩

instance : Inhabited World := ⟨initial .empty⟩

def emit (world : World) (event : Event) : World :=
  { world with events := world.events ++ [event] }

def wake (world : World) (strands : List Strand) : World :=
  { world with ready := Strand.wake world.ready strands }

/-- Wake waiters in order. -/
def wakeAll (world : World) (waiters : List Waiter) : World :=
  waiters.foldl (fun world waiter => world.wake waiter.strands) world

/-- A number not given out before. -/
def take (world : World) : Nat × World :=
  (world.fresh, { world with fresh := world.fresh + 1 })

/-- Set an alarm for a sleeper. -/
def setTimer (world : World) (due : Nat) (strands : List Strand) : Nat × World :=
  let (id, world) := world.take
  (id, { world with timers := world.timers ++ [⟨id, due, strands⟩] })

def dropTimer (world : World) (id : Nat) : World :=
  { world with timers := world.timers.filter fun timer => timer.id ≠ id }

/-- How often an instrument was started. -/
def startsOf (world : World) (counter : Nat) : Nat :=
  (OrderedMap.get? world.starts counter).getD 0

/-- One more start of an instrument. -/
def count (world : World) (counter : Nat) : World :=
  { world with starts := OrderedMap.insert world.starts counter (world.startsOf counter + 1) }

/-- When the next timer is due. -/
def nextDue? (world : World) : Option Nat :=
  (world.timers.map Timer.due).min?

/-- Go to a time and wake the sleepers whose timers are due, earlier ones first and among equals
the one that was set first. -/
def advanceTo (world : World) (time : Nat) : World :=
  let due := (world.timers.filter fun timer => timer.due ≤ time).mergeSort
    fun a b => a.due ≤ b.due
  due.foldl (fun world timer => world.wake timer.strands)
    { world with now := time, timers := world.timers.filter fun timer => time < timer.due }

/-- A registration, told to the observer whether it is accepted or not. -/
def register (world : World) (key : Key) (entry : Entry) : Except RegistryError Unit × World :=
  match world.registry.register key entry with
  | .ok registry => (.ok (), { world with registry }.emit (.registered key entry.isDeferred))
  | .error error => (.error error, world.emit (.rejected key))

/-- A fetch begins. -/
def arrive (world : World) (type : TypeName) (key : Key) (owner : Option Key) (waiter : Waiter) :
    Registry.Arrival × World :=
  let (arrival, registry) := world.registry.arrive type key owner waiter
  (arrival, { world with registry })

/-- A fetch in a queue looks again. -/
def resume (world : World) (type : TypeName) (key : Key) (ticket : Nat) :
    Registry.Resumption × World :=
  let (resumption, registry) := world.registry.resume type key ticket
  (resumption, { world with registry })

/-- A fetch made for an owner is over and no longer waits. -/
def unlink (world : World) (owner : Option Key) (key : Key) : World :=
  { world with registry := world.registry.unlink owner key }

/-- The value of an entry is made; all who wait for it wake up. -/
def settle (world : World) (key : Key) (stored : Stored) : World :=
  let (waiters, registry) := world.registry.settle key stored
  { world with registry }.wakeAll waiters

/-- An initialization ends without a value; the next in the queue wakes up. -/
def release (world : World) (key : Key) : World :=
  let (waiters, registry) := world.registry.release key
  { world with registry }.wakeAll waiters

/-- A waiter leaves the queue of an entry. -/
def withdraw (world : World) (key : Key) (ticket : Nat) : World :=
  let (waiters, registry) := world.registry.withdraw key ticket
  { world with registry }.wakeAll waiters

end World

end Blueprint
