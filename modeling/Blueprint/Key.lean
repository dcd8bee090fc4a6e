import Blueprint.Text.Quoted
import Blueprint.Text.Layout
import Blueprint.TypeName
/-!
Registry keys: a type together with a name, so that one name can stand for unrelated things of
different types.
-/

namespace Blueprint

/-- What a registry entry is found by. -/
structure Key where
  type : TypeName
  name : String
  deriving DecidableEq, Repr

namespace Key

/-- A short type name and a quoted name in brackets, such as `Auth("ci")`. -/
def textOf (typeName name : String) : String :=
  Text.applied typeName (Text.quoted name)

/-- The key as messages show it. -/
def text (key : Key) : String :=
  textOf key.type.short key.name

def debug (key : Key) : String :=
  Text.applied "RegistryKey" key.text

end Key

end Blueprint
