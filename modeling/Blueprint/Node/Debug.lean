import Blueprint.Node
/-!
Nodes, shells and references as a reader sees them. Counters are shown with the number of starts
so far, so the text depends on the counts.
-/

namespace Blueprint

/-- A reference to a type and a name. -/
def Node.referenceDebug (type : EntityType) (name : String) : String :=
  "Ref<" ++ type.shortName ++ ">(" ++ Text.quoted name ++ ")"

variable (starts : Nat → Nat)

mutual

def Node.debug : Node → String
  | .literal value => Text.applied "Literal" value.debug
  | .reference type name => Text.applied "Reference" (Node.referenceDebug type name)
  | .nested shell => Text.applied "Nested" shell.debug

def Shell.debug : Shell → String
  | .record type fields =>
    Text.braced ((type.recordForm?.map RecordForm.shellName).getD type.shortName)
      (Slot.debugFields fields)
  | .variant _ tag shell => Text.applied tag shell.debug
  | .counted _ value _ counter =>
    Text.braced "Counted" [("value", value.debug), ("calls", toString (starts counter))]
  | .stalled _ counter => Text.braced "Stalled" [("started", toString (starts counter))]
  | .delayed _ node delay =>
    Text.braced "Delayed" [("node", node.debug), ("ms", toString delay)]

def Slot.debug : Slot → String
  | .required node => Slot.debugOption node
  | .optional node => Slot.debugOption node
  | .repeated nodes => Text.listed (Slot.debugNodes nodes)
  | .keyed pairs => Text.listed (Slot.debugPairs pairs)

def Slot.debugOption : Option Node → String
  | none => Text.perhaps none
  | some node => Text.perhaps (some node.debug)

def Slot.debugNodes : List Node → List String
  | [] => []
  | node :: rest => node.debug :: Slot.debugNodes rest

def Slot.debugPairs : List (Node × Node) → List String
  | [] => []
  | (key, value) :: rest => Text.paired key.debug value.debug :: Slot.debugPairs rest

def Slot.debugFields : List (String × Slot) → List (String × String)
  | [] => []
  | (name, slot) :: rest => (name, slot.debug) :: Slot.debugFields rest

end

end Blueprint
