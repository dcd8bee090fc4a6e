import Blueprint.Session.Report
/-!
The state of a session: its resolvers and their registries, one world in which all of them work,
and the log so far.
-/

namespace Blueprint.Session

/-- A resolver works on one of the registries of the session. -/
structure Resolver where
  registry : Nat
  config : Config
  deriving DecidableEq, Repr

structure State where
  /-- its registry is that of the resolver that works at the moment -/
  world : World
  registries : List Registry
  resolvers : List (String × Resolver)
  /-- the instruments that have names -/
  marks : List (String × Nat)
  tracing : Bool
  log : Array Record

namespace State

/-- A session has one resolver at first. -/
def initial : State :=
  { world := .initial .empty, registries := [.empty]
    resolvers := [("main", ⟨0, .default⟩)], marks := [], tracing := false, log := #[] }

instance : Inhabited State := ⟨initial⟩

def resolver (state : State) (name : String) : Resolver :=
  (OrderedMap.get? state.resolvers name).getD ⟨0, .default⟩

def registry (state : State) (index : Nat) : Registry :=
  state.registries.getD index .empty

def record (state : State) (entry : Record) : State :=
  { state with log := state.log.push entry }

/-- Let something happen in the world with one of the registries. Events are logged while the
session is traced. -/
def act {α : Type} (state : State) (index : Nat) (action : World → α × World) : α × State :=
  let (result, world) := action { state.world with registry := state.registry index, events := [] }
  let log := if state.tracing then state.log ++ world.events.map Record.event else state.log
  (result, { state with
    world := { world with events := [] }
    registries := state.registries.set index world.registry
    log })

/-- Let something happen that has no result. -/
def update (state : State) (index : Nat) (action : World → World) : State :=
  (state.act index fun world => ((), action world)).2

def addResolver (state : State) (name : String) (share : Option String) (config : Config) : State :=
  match share with
  | some other =>
    let resolver : Resolver := ⟨(state.resolver other).registry, config⟩
    { state with resolvers := OrderedMap.insert state.resolvers name resolver }
  | none =>
    let resolver : Resolver := ⟨state.registries.length, config⟩
    { state with
      registries := state.registries ++ [.empty]
      resolvers := OrderedMap.insert state.resolvers name resolver }

def configure (state : State) (name : String) (config : Config) : State :=
  let resolver : Resolver := { state.resolver name with config }
  { state with resolvers := OrderedMap.insert state.resolvers name resolver }

end State

namespace Resolver

/-- A resolver as a reader sees it, with its registry. -/
def debug (resolver : Resolver) (registry : Registry) : String :=
  Text.braced "Resolver" [("registry", registry.debug), ("config", resolver.config.debug)]

end Resolver

end Blueprint.Session
