/-!
Names of types. The full name tells types apart; the short one, its last segment with all
arguments, is what keys and messages show.
-/

namespace Blueprint

/-- A type, identified by its full name. -/
structure TypeName where
  full : String
  deriving DecidableEq, Repr

namespace TypeName

/-- The characters before the first separator `::`. -/
private def untilSeparator : List Char → List Char
  | [] => []
  | ':' :: ':' :: _ => []
  | c :: rest => c :: untilSeparator rest

/-- The characters after the last separator `::`, all of them if there is none. -/
def lastSegment (chars : List Char) : List Char :=
  (untilSeparator chars.reverse).reverse

/-- The last segment of the name in front of the first `<`, followed by the arguments unchanged. -/
def short (type : TypeName) : String :=
  let isName := fun c : Char => c != '<'
  String.ofList
    (lastSegment (type.full.toList.takeWhile isName) ++ type.full.toList.dropWhile isName)

end TypeName

end Blueprint
