/-!
Strands: the branches of a computation that can be woken on their own. A sleeper names its strand
and those it lies in, innermost first, ending with the whole operation.
-/

namespace Blueprint

inductive Strand where
  /-- an operation as a whole -/
  | operation (id : Nat)
  /-- an element of a fan-out -/
  | element (fan position : Nat)
  deriving DecidableEq, Repr

namespace Strand

/-- Add the strands of a sleeper to a queue of strands to be run. One that is queued already has
told those around it, so the outer ones follow only as far as the first of these. -/
def wake (queue : List Strand) : List Strand → List Strand
  | [] => queue
  | strand :: outer => if strand ∈ queue then queue else wake (queue ++ [strand]) outer

end Strand

end Blueprint
