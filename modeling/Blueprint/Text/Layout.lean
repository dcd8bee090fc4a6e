/-!
The shapes in which structured data is written out for a reader: named fields in braces, a name
applied to one argument, sequences, pairs and maps.
-/

namespace Blueprint.Text

/-- Items with a comma and a blank between them. -/
def commas (items : List String) : String :=
  ", ".intercalate items

private def fieldTexts (fields : List (String × String)) : List String :=
  fields.map fun (name, text) => name ++ ": " ++ text

/-- A name and all its fields; without fields the name stands alone. -/
def braced (name : String) (fields : List (String × String)) : String :=
  if fields.isEmpty then name else name ++ " \x7b " ++ commas (fieldTexts fields) ++ " \x7d"

/-- A name and those of its fields that are shown; the dots stand for the others. -/
def bracedOpen (name : String) (fields : List (String × String)) : String :=
  name ++ " \x7b " ++ commas (fieldTexts fields ++ [".."]) ++ " \x7d"

/-- A name applied to one argument. -/
def applied (name argument : String) : String :=
  name ++ "(" ++ argument ++ ")"

/-- A sequence in square brackets. -/
def listed (items : List String) : String :=
  "[" ++ commas items ++ "]"

/-- Two things in round brackets. -/
def paired (first second : String) : String :=
  "(" ++ first ++ ", " ++ second ++ ")"

/-- A map in braces, in the order of its entries. -/
def mapped (entries : List (String × String)) : String :=
  "\x7b" ++ commas (fieldTexts entries) ++ "\x7d"

/-- Something that may be missing. -/
def perhaps : Option String → String
  | none => "None"
  | some text => applied "Some" text

/-- A truth value. -/
def truth : Bool → String
  | true => "true"
  | false => "false"

end Blueprint.Text
