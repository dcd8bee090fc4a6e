import Blueprint.Text.Quoted
import Blueprint.Text.Layout
/-!
Paths: where in a tree of nodes a step of resolution runs, read from the root, such as
`jobs[1].steps[0]->Auth("ci").password`.
-/

namespace Blueprint

/-- One step from a node to something below it. -/
inductive Segment where
  /-- a field of an entity -/
  | field (name : String)
  /-- a position in a repeated or keyed field -/
  | index (position : Nat)
  /-- the registry entry that a reference names, by the text of its key -/
  | reference (target : String)
  deriving DecidableEq, Repr

/-- A list of segments, root first. -/
structure Path where
  segments : List Segment
  deriving DecidableEq, Repr

namespace Segment

/-- A segment as it follows another one. -/
def text : Segment → String
  | field name => "." ++ name
  | index position => "[" ++ toString position ++ "]"
  | reference target => "->" ++ target

/-- The first segment of a path; a field there has no dot. -/
def leadingText : Segment → String
  | field name => name
  | segment => segment.text

def debug : Segment → String
  | field name => Text.applied "Field" (Text.quoted name)
  | index position => Text.applied "Index" (toString position)
  | reference target => Text.applied "Reference" (Text.quoted target)

end Segment

namespace Path

/-- The place where resolution starts. -/
def root : Path := ⟨[]⟩

/-- One segment further down. -/
def child (path : Path) (segment : Segment) : Path :=
  ⟨path.segments ++ [segment]⟩

def isRoot (path : Path) : Bool :=
  path.segments.isEmpty

def depth (path : Path) : Nat :=
  path.segments.length

/-- The path as messages show it. -/
def text (path : Path) : String :=
  match path.segments with
  | [] => "<root>"
  | first :: rest => first.leadingText ++ String.join (rest.map Segment.text)

def debug (path : Path) : String :=
  Text.braced "FieldPath" [("segments", Text.listed (path.segments.map Segment.debug))]

/-- Whether the first path is a proper beginning of the second. -/
def isAbove (upper lower : Path) : Bool :=
  upper.depth < lower.depth && upper.segments.isPrefixOf lower.segments

end Path

end Blueprint
