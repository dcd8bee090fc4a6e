import Blueprint.Node
/-!
Edits: single changes of a record shell. A builder reaches its shell through edits only.
-/

namespace Blueprint

inductive Edit where
  /-- put a node into a single field -/
  | set (field : String) (node : Node)
  /-- add nodes to the end of a repeated field -/
  | append (field : String) (nodes : List Node)
  /-- add pairs to the end of a keyed field -/
  | put (field : String) (pairs : List (Node × Node))

namespace Edit

/-- The name of the field that changes. -/
def field : Edit → String
  | set field _ | append field _ | put field _ => field

/-- The slot after the edit. An edit for a slot of another kind changes nothing. -/
def onSlot : Edit → Slot → Slot
  | set _ node, .required _ => .required (some node)
  | set _ node, .optional _ => .optional (some node)
  | append _ nodes, .repeated earlier => .repeated (earlier ++ nodes)
  | put _ pairs, .keyed earlier => .keyed (earlier ++ pairs)
  | _, slot => slot

/-- The shell after the edit; only records have fields. -/
def onShell (edit : Edit) : Shell → Shell
  | .record type fields =>
    .record type (fields.map fun (name, slot) =>
      (name, if name = edit.field then edit.onSlot slot else slot))
  | shell => shell

end Edit

end Blueprint
