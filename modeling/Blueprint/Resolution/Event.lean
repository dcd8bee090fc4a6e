import Blueprint.Resolution.Error
/-!
What a resolution and its registry tell an observer while they work.
-/

namespace Blueprint

inductive Event where
  /-- a key was registered, with a value or deferred -/
  | registered (key : Key) (deferred : Bool)
  /-- a key was taken already -/
  | rejected (key : Key)
  /-- an entry starts to be initialized -/
  | initializing (key : Key)
  /-- the node of a deferred entry is resolved at a path -/
  | dereferencing (path : Path)
  /-- a keyed field has a key twice -/
  | duplicateKey (path : Path)
  /-- the present variant of a union is resolved -/
  | variant (tag : String) (path : Path)
  /-- a resolution succeeded -/
  | resolved
  /-- a resolution failed -/
  | failed (error : ResolveError)
  /-- a span was opened for an entity -/
  | span (entity : String) (path : Path)
  deriving DecidableEq, Repr

/-- What is told about one aspect of an event. -/
inductive Detail where
  | text (content : String)
  | flag (value : Bool)
  deriving DecidableEq, Repr

namespace Event

/-- Whether the event opens a span; all others are single messages. -/
def isSpan : Event → Bool
  | span _ _ => true
  | _ => false

def level : Event → String
  | rejected _ => "WARN"
  | initializing _ | resolved | failed _ | span _ _ => "DEBUG"
  | registered _ _ | dereferencing _ | duplicateKey _ | variant _ _ => "TRACE"

/-- The message, for a span its name. -/
def message : Event → String
  | registered _ _ => "registered"
  | rejected _ => "duplicate registration rejected"
  | initializing _ => "initializing deferred entry"
  | dereferencing _ => "resolving deferred reference"
  | duplicateKey _ => "duplicate key, last value wins"
  | variant _ _ => "resolving union variant"
  | resolved => "resolved"
  | failed _ => "resolution failed"
  | span _ _ => "resolve"

def details : Event → List (String × Detail)
  | registered key deferred => [("entry", .text key.text), ("deferred", .flag deferred)]
  | rejected key | initializing key => [("entry", .text key.text)]
  | dereferencing path => [("entry", .text path.text)]
  | duplicateKey path => [("field", .text path.text)]
  | variant tag path => [("variant", .text tag), ("path", .text path.text)]
  | resolved => []
  | failed error => [("error", .text error.message)]
  | span entity path => [("entity", .text entity), ("path", .text path.text)]

end Event

end Blueprint
