/-!
Maps that remember the order of insertion, as lists of entries with distinct keys. Writing a key
that is present replaces its value and keeps its position; a new key goes to the end.
-/

namespace Blueprint.OrderedMap

variable {α β : Type} [DecidableEq α]

/-- Write one entry. -/
def insert (entries : List (α × β)) (key : α) (value : β) : List (α × β) :=
  match entries with
  | [] => [(key, value)]
  | (k, v) :: rest => if k = key then (k, value) :: rest else (k, v) :: insert rest key value

/-- Write entries one after another into an empty map. -/
def ofList (pairs : List (α × β)) : List (α × β) :=
  pairs.foldl (fun entries (key, value) => insert entries key value) []

/-- The value under a key. -/
def get? (entries : List (α × β)) (key : α) : Option β :=
  (entries.find? fun entry => entry.1 = key).map (·.2)

end Blueprint.OrderedMap
