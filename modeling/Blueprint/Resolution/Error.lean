import Blueprint.Path
import Blueprint.Registry.Error
/-!
What can go wrong in a resolution, where, and how it is told. The first failure ends a resolution.
-/

namespace Blueprint

inductive ResolveError where
  /-- a reference names a key under which nothing is registered -/
  | unresolvedReference (typeName key : String) (path : Path)
  /-- a union has no variant of this name -/
  | unknownVariant (union tag : String)
  /-- a required field was never set -/
  | missingField (entity field : String) (path : Path)
  /-- deferred entries depend on each other -/
  | referenceCycle (chain : List String) (path : Path)
  /-- any other failure of the registry -/
  | registry (source : RegistryError) (path : Path)
  /-- the deadline passed first -/
  | deadlineExceeded (deadline : Nat)
  deriving DecidableEq, Repr

namespace ResolveError

/-- A failure of the registry that was met at a path. -/
def ofRegistry (error : RegistryError) (path : Path) : ResolveError :=
  match error with
  | .notRegistered typeName key => unresolvedReference typeName key path
  | .cycle chain => referenceCycle chain path
  | source => registry source path

/-- Where the failure arose, if it has a place. -/
def path? : ResolveError → Option Path
  | unresolvedReference _ _ path | missingField _ _ path | referenceCycle _ path
  | registry _ path => some path
  | unknownVariant _ _ | deadlineExceeded _ => none

/-- The failure of the registry behind this one, if it is reported as such. -/
def source? : ResolveError → Option RegistryError
  | registry source _ => some source
  | _ => none

/-- Whether the schema and the data disagree. -/
def isFatal : ResolveError → Bool
  | unknownVariant _ _ => true
  | _ => false

def isUnresolvedReference : ResolveError → Bool
  | unresolvedReference _ _ _ => true
  | _ => false

def message : ResolveError → String
  | unresolvedReference typeName key path =>
    "unresolved reference " ++ Key.textOf typeName key ++ " at " ++ path.text
  | unknownVariant union tag => "unknown variant " ++ Text.quoted tag ++ " of union " ++ union
  | missingField entity field path =>
    "missing required field " ++ entity ++ "." ++ field ++ " at " ++ path.text
  | referenceCycle chain path =>
    "reference cycle " ++ RegistryError.chainText chain ++ " at " ++ path.text
  | registry source path => "registry error at " ++ path.text ++ ": " ++ source.message
  | deadlineExceeded deadline =>
    "resolution exceeded deadline of " ++ toString deadline ++ "ms"

/-- The name of the kind of error. -/
def kind : ResolveError → String
  | unresolvedReference _ _ _ => "UnresolvedReference"
  | unknownVariant _ _ => "UnknownVariant"
  | missingField _ _ _ => "MissingField"
  | referenceCycle _ _ => "ReferenceCycle"
  | registry _ _ => "Registry"
  | deadlineExceeded _ => "DeadlineExceeded"

def debug (error : ResolveError) : String :=
  Text.braced error.kind <|
    match error with
    | unresolvedReference typeName key path =>
      [("type_name", Text.quoted typeName), ("key", Text.quoted key), ("path", path.debug)]
    | unknownVariant union tag => [("union", Text.quoted union), ("variant", Text.quoted tag)]
    | missingField entity field path =>
      [("entity", Text.quoted entity), ("field", Text.quoted field), ("path", path.debug)]
    | referenceCycle chain path =>
      [("chain", Text.listed (chain.map Text.quoted)), ("path", path.debug)]
    | registry source path => [("source", source.debug), ("path", path.debug)]
    | deadlineExceeded deadline => [("deadline_ms", toString deadline)]

end ResolveError

end Blueprint
