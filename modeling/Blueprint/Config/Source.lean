import Blueprint.Config
import Blueprint.Json
import Blueprint.Toml.Document
/-!
Configurations read from text. What a text does not mention keeps its default, and what is not
known is passed over.
-/

namespace Blueprint.Config

/-- A number that is configured. -/
def numberOfScalar? : Toml.Item → Option Nat
  | .value (.integer n) => if 0 ≤ n then some n.toNat else none
  | _ => none

/-- A truth value that is configured. -/
def flagOfScalar? : Toml.Item → Option Bool
  | .value (.boolean b) => some b
  | _ => none

/-- What is under a key, read as something; a default if there is nothing. -/
def readOr {α β : Type} (entry : Option α) (read : α → Option β) (default : β) : Option β :=
  match entry with
  | none => some default
  | some found => read found

/-- A configuration as a TOML document. -/
def ofToml? (text : String) : Option Config := do
  let entries ← Toml.document? text
  let under := OrderedMap.get? entries
  return {
    maxConcurrency :=
      ← readOr (under "max_concurrency") numberOfScalar? Config.default.maxConcurrency
    deadline :=
      ← readOr (under "deadline_ms") (fun item => (numberOfScalar? item).map some)
        Config.default.deadline
    spanPerEntity :=
      ← readOr (under "span_per_entity") flagOfScalar? Config.default.spanPerEntity }

/-- A number in JSON. -/
def numberOfJson? : Json → Option Nat
  | .number (some n) => if n ≤ wordMax then some n else none
  | _ => none

/-- A number in JSON that may be null. -/
def deadlineOfJson? : Json → Option (Option Nat)
  | .null => some none
  | json => (numberOfJson? json).map some

/-- A truth value in JSON. -/
def flagOfJson? : Json → Option Bool
  | .boolean b => some b
  | _ => none

/-- The values under a key in order. -/
def membersAt (members : List (Option String × Json)) (key : String) : List Json :=
  members.filterMap fun (name, value) => if name = some key then some value else none

/-- The only value under a key, read as something; a default if there is none. -/
def readOnly? {β : Type} (values : List Json) (read : Json → Option β) (default : β) : Option β :=
  match values with
  | [] => some default
  | [value] => read value
  | _ => none

/-- A configuration from three places, each with at most one value. -/
def ofPlaces? (limits deadlines spans : List Json) : Option Config := do
  return {
    maxConcurrency := ← readOnly? limits numberOfJson? Config.default.maxConcurrency
    deadline := ← readOnly? deadlines deadlineOfJson? Config.default.deadline
    spanPerEntity := ← readOnly? spans flagOfJson? Config.default.spanPerEntity }

/-- A configuration as a JSON object, in which a known key occurs once, or as an array with the
values in order, the last of which may be missing. -/
def ofJson? (text : String) : Option Config := do
  match ← Json.ofText? text with
  | .object members =>
    if members.all fun member => member.1.isSome then
      ofPlaces? (membersAt members "max_concurrency") (membersAt members "deadline_ms")
        (membersAt members "span_per_entity")
    else none
  | .array items =>
    if items.length ≤ 3 then
      ofPlaces? (items.take 1) ((items.drop 1).take 1) (items.drop 2)
    else none
  | _ => none

end Blueprint.Config
