import Blueprint.Session.Step
/-!
The log of a session: what each step answered and when, with the events and the initializations
that happened meanwhile.
-/

namespace Blueprint.Session

/-- What is told about a scope. -/
structure ScopeReport where
  path : Path
  /-- no span was opened -/
  silent : Bool
  maxConcurrency : Nat
  debug : String
  deriving DecidableEq, Repr

inductive Answer where
  | done
  | config (text : String)
  | elapsed (value : Bool)
  | starts (count : Nat)
  | stats (stats : RegistryStats)
  | size (count : Nat)
  | keys (texts : List String)
  | debug (registry resolver : String)
  | accepted (result : Except Failure Unit)
  | flag (value : Bool)
  | lookup (value : Option Value)
  | value (result : Except Failure Value)
  /-- a resolved variant, with the name of its shell -/
  | variant (name : String) (result : Except Failure Value)
  | scope (report : ScopeReport)

inductive Record where
  | answer (label : String) (time : Nat) (answer : Answer)
  | event (event : Event)
  /-- the initializer of an entry starts, with its payload if that is a text -/
  | initializer (key : Key) (payload : Option String) (time : Nat)
  /-- the session was cut because its work does not end -/
  | cut

end Blueprint.Session
