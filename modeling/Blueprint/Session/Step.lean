import Blueprint.Resolution.Operation
/-!
Scripts: what a session does with its resolvers, as data. A script is a list of steps; steps may
run side by side, under a time limit, or as part of the initialization of a registry entry.
-/

namespace Blueprint.Session

/-- A failure of any kind that a step can end with. -/
inductive Failure where
  | resolve (error : ResolveError)
  | registry (error : RegistryError)
  /-- an initializer gave up, with its own words -/
  | initializer (message : String)
  deriving DecidableEq, Repr

/-- Something that is resolved under a scope chosen by the script. -/
inductive Work where
  | node (node : Node)
  | field (entity name : String) (slot : Slot)
  | variant (tag : String) (shell : Shell)

namespace Work

/-- The work as a task. -/
def task (work : Work) (scope : Scope) : Task :=
  match work with
  | .node root => .node root scope
  | .field entity name slot => .field entity name slot scope
  | .variant tag shell => .variant tag shell scope

end Work

/-- How an initializer written as a script ends. A text may mention the payload. -/
inductive Outcome where
  | value (value : Value)
  | fail (message : String)
  | refuse (error : RegistryError)

mutual

/-- A step with the label under which it is reported and the name of the resolver it uses. -/
inductive Step where
  | mk (label resolver : String) (action : Action)

inductive Action where
  /-- report events from here on, or no longer -/
  | trace (on : Bool)
  /-- a new resolver, on the registry of another one or on its own -/
  | create (name : String) (share : Option String) (config : Config)
  | configure (config : Config)
  /-- give an instrument a name; not reported -/
  | mark (name : String) (counter : Nat)
  | sleep (time : Nat)
  | parallel (branches : List (List Step))
  | timeout (limit : Nat) (body : List Step)
  | starts (name : String)
  | stats
  | size
  | keys
  | debug
  /-- put a value or a deferred payload under a key; `whole` if a resolver does it and reports its
  own kind of error -/
  | register (whole : Bool) (key : Key) (entry : Entry)
  | contains (key : Key)
  | get (key : Key)
  | resolve (node : Node)
  | resolveAndRegister (key : Key) (node : Node)
  | work (place : List Segment) (work : Work)
  | scope (place : List Segment) (entity : String)
  | fetch (call : Call)

/-- A fetch as a value of a type, on behalf of a waiting entry if one is named. -/
inductive Call where
  | mk (key : Key) (type : TypeName) (owner : Option Key) (initializer : Initializer)

/-- What initializes an entry: steps, then further fetches, then an outcome. -/
inductive Initializer where
  | mk (steps : List Step) (calls : List Call) (outcome : Outcome)

end

namespace Call

def key : Call → Key
  | mk key _ _ _ => key

def type : Call → TypeName
  | mk _ type _ _ => type

def owner : Call → Option Key
  | mk _ _ owner _ => owner

def initializer : Call → Initializer
  | mk _ _ _ initializer => initializer

end Call

namespace Initializer

def steps : Initializer → List Step
  | mk steps _ _ => steps

def calls : Initializer → List Call
  | mk _ calls _ => calls

def outcome : Initializer → Outcome
  | mk _ _ outcome => outcome

end Initializer

end Blueprint.Session
