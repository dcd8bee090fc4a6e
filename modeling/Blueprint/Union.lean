import Blueprint.Node
import Blueprint.Resolution.Error
/-!
Unions chosen by the name of a variant that is known only when the program runs.
-/

namespace Blueprint

/-- The candidate that a tag names; the first one counts. -/
def selectVariant {α : Type} (union tag : String) (candidates : List (String × α)) :
    Except ResolveError α :=
  match candidates.find? fun candidate => candidate.1 = tag with
  | some candidate => .ok candidate.2
  | none => .error (.unknownVariant union tag)

/-- The shell with nothing set of the variant that a tag names. -/
def Shell.ofTag (union : EntityType) (tag : String) : Except ResolveError Shell :=
  match union.form with
  | .record _ => .error (.unknownVariant union.shortName tag)
  | .union variants =>
    selectVariant union.shortName tag
      (variants.map fun (name, type) => (name, .variant union name (Shell.blank type)))

end Blueprint
