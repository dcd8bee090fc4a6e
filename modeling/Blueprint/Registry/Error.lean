import Blueprint.Key
/-!
What can go wrong in the registry, and how it is told.
-/

namespace Blueprint

inductive RegistryError where
  /-- nothing is registered under the key -/
  | notRegistered (typeName key : String)
  /-- the key is taken; the first registration stays -/
  | alreadyRegistered (typeName key : String)
  /-- what is stored is not of the type in the key -/
  | typeMismatch (typeName key : String)
  /-- deferred entries wait on each other; the first key is repeated at the end -/
  | cycle (chain : List String)
  deriving DecidableEq, Repr

namespace RegistryError

/-- An error about one key. -/
def about (error : String → String → RegistryError) (key : Key) : RegistryError :=
  error key.type.short key.name

/-- The links of a chain with arrows between them. -/
def chainText (chain : List String) : String :=
  " -> ".intercalate chain

def message : RegistryError → String
  | notRegistered typeName key => "no " ++ typeName ++ " registered under " ++ Text.quoted key
  | alreadyRegistered typeName key => typeName ++ " " ++ Text.quoted key ++ " is already registered"
  | typeMismatch typeName key =>
    "entry " ++ typeName ++ " " ++ Text.quoted key ++ " holds a value of another type"
  | cycle chain => "deferred reference cycle: " ++ chainText chain

/-- The name of the kind of error. -/
def kind : RegistryError → String
  | notRegistered _ _ => "NotRegistered"
  | alreadyRegistered _ _ => "AlreadyRegistered"
  | typeMismatch _ _ => "TypeMismatch"
  | cycle _ => "Cycle"

def isNotRegistered : RegistryError → Bool
  | notRegistered _ _ => true
  | _ => false

def debug (error : RegistryError) : String :=
  Text.braced error.kind <|
    match error with
    | notRegistered typeName key | alreadyRegistered typeName key | typeMismatch typeName key =>
      [("type_name", Text.quoted typeName), ("key", Text.quoted key)]
    | cycle chain => [("chain", Text.listed (chain.map Text.quoted))]

end RegistryError

end Blueprint
