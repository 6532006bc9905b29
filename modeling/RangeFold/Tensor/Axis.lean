import RangeFold.Tensor.Shape

/-!
# Axes, permutations and reshape targets

The three kinds of integer list by which a graph changes a layout. An axis counts
from the front, or from the back when negative. A permutation names every axis
once. A reshape target states each dimension, copies it from the input (0) or
leaves one of them to be inferred (-1).
-/

namespace RangeFold

/-- The position of an axis in a value of the given rank. -/
def axisPosition (axis : Int) (rank : Nat) : Option Nat :=
  let position := if axis < 0 then axis + rank else axis
  if position < 0 ∨ rank ≤ position then none else some position.toNat

/-- The positions of several axes; one out of range rejects them all. -/
def axisPositions (axes : List Int) (rank : Nat) : Option (List Nat) :=
  axes.mapM fun axis => axisPosition axis rank

/-- The greatest rank that a signed 64-bit word holds. -/
def greatestRank : Nat := 9223372036854775807

/-- The position of an axis in a rank that is only stated as a number. Axes are signed
words, and a stated rank past those has none. -/
def statedAxisPosition (axis : Int) (rank : Nat) : Option Nat :=
  if rank ≤ greatestRank then axisPosition axis rank else none

/-- The positions of several axes in a stated rank. -/
def statedAxisPositions (axes : List Int) (rank : Nat) : Option (List Nat) :=
  axes.mapM fun axis => statedAxisPosition axis rank

/-- Why a list does not permute the axes of a value. -/
inductive PermutationFault where
  | rankMismatch (axes : List Int) (rank : Nat)
  | notPermutation (axes : List Int) (rank : Nat)
deriving DecidableEq

/-- The text of what is wrong with a list of axes. -/
def PermutationFault.message : PermutationFault → String
  | rankMismatch axes rank =>
    "perm " ++ listText axes ++ " does not match rank " ++ toString rank
  | notPermutation axes rank =>
    "perm " ++ listText axes ++ " is not a permutation of 0.." ++ toString rank

/-- Accept a list that names each axis of a rank exactly once. Negative entries do
not count from the back here. -/
def permutationOf (axes : List Int) (rank : Nat) : Except PermutationFault (List Nat) :=
  if axes.length ≠ rank then .error (.rankMismatch axes rank)
  else if (∀ axis ∈ axes, 0 ≤ axis ∧ axis < rank) ∧ axes.Nodup then .ok (axes.map Int.toNat)
  else .error (.notPermutation axes rank)

/-- Why a reshape target does not resolve. -/
inductive ReshapeFault where
  | repeatedInference (target : List Int)
  | copyBeyondRank (position rank : Nat)
  | invalidDim (dim : Int) (target : List Int)
  | notDivisible (total known : Nat)
  | countMismatch (input : Shape) (total : Nat) (output : Shape) (count : Nat)
deriving DecidableEq

/-- The text of what is wrong with a reshape target. -/
def ReshapeFault.message : ReshapeFault → String
  | repeatedInference target => "more than one -1 in target " ++ listText target
  | copyBeyondRank position rank =>
    "0 at position " ++ toString position ++ " exceeds input rank " ++ toString rank
  | invalidDim dim target =>
    "invalid dimension " ++ toString dim ++ " in target " ++ listText target
  | notDivisible total known =>
    "cannot infer -1: " ++ toString total ++ " elements do not divide by " ++ toString known
  | countMismatch input total output count =>
    "element count mismatch: input " ++ listText input ++ " has " ++ toString total ++
      ", target " ++ listText output ++ " has " ++ toString count

/-- Read the target entries from a position on, absent where a dimension is to be
inferred. The first offending entry decides the fault, so a second -1 is only
reported if nothing before it is wrong. -/
def reshapeEntries (input : Shape) (target : List Int) :
    Nat → Bool → List Int → Except ReshapeFault (List (Option Nat))
  | _, _, [] => .ok []
  | position, inferring, entry :: rest =>
    if entry = -1 then
      if inferring then .error (.repeatedInference target)
      else (reshapeEntries input target (position + 1) true rest).map (none :: ·)
    else if entry = 0 then
      match input[position]? with
      | none => .error (.copyBeyondRank position input.length)
      | some dim => (reshapeEntries input target (position + 1) inferring rest).map (some dim :: ·)
    else if entry < 0 then .error (.invalidDim entry target)
    else
      (reshapeEntries input target (position + 1) inferring rest).map (some entry.toNat :: ·)

/-- The shape a target denotes for an input of a given shape. An inferred dimension
is what is left of the element count after all others; the result has as many
elements as the input. -/
def resolveReshape (input : Shape) (target : List Int) : Except ReshapeFault Shape := do
  let entries ← reshapeEntries input target 0 false target
  let total := input.volume
  let known := Shape.volume (entries.map (·.getD 1))
  if entries.contains none && (known == 0 || total % known != 0) then
    throw (.notDivisible total known)
  let output := entries.map (·.getD (total / known))
  if Shape.volume output ≠ total then
    throw (.countMismatch input total output (Shape.volume output))
  return output

end RangeFold
