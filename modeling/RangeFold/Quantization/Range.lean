import RangeFold.Failure

/-!
# Quantization ranges

A quantization range snaps a value to one of a number of equally spaced levels
between two input bounds and maps the levels onto two output bounds. Each bound
is a tensor that broadcasts against the value, so a range can differ between
channels. A range is valid when it has at least two levels and no low bound
exceeds its high bound anywhere.

Both checks are made when a range is used, not when it is built: a graph may hold
an invalid range, and a pass that meets one declines it.
-/

namespace RangeFold

/-- A range with a number of levels: the bounds between which values are snapped,
and the bounds that the levels are spread between. Bounds are arrays that stretch
over the input. -/
structure QuantRange (α : Type) where
  inputLow : Tensor α
  inputHigh : Tensor α
  outputLow : Tensor α
  outputHigh : Tensor α
  levels : Int
deriving DecidableEq

/-- Snap one value. At or below the lower input bound it becomes the low output,
above the upper one the high output; between them it moves to the nearest level.
Where the input bounds coincide the first two cases cover every ordered value, so
the division is never by zero. -/
def quantizeValue {α : Type} [Arithmetic α] (value inputLow inputHigh outputLow outputHigh : α)
    (levels : Int) : α :=
  if Arithmetic.le value (Arithmetic.lesser inputLow inputHigh) then outputLow
  else if Arithmetic.lt (Arithmetic.greater inputLow inputHigh) value then outputHigh
  else
    let steps := Arithmetic.ofInt (levels - 1)
    let place := Arithmetic.div (Arithmetic.sub value inputLow) (Arithmetic.sub inputHigh inputLow)
    let level := Arithmetic.nearestInteger (Arithmetic.mul place steps)
    Arithmetic.add
      (Arithmetic.mul (Arithmetic.div level steps) (Arithmetic.sub outputHigh outputLow)) outputLow

namespace QuantRange

variable {α : Type}

/-- The bounds under the names they have as attributes, in declaration order. -/
def bounds (range : QuantRange α) : List (String × Tensor α) :=
  [("input_low", range.inputLow), ("input_high", range.inputHigh),
    ("output_low", range.outputLow), ("output_high", range.outputHigh)]

/-- The names of the bounds. -/
def boundNames : List String := ["input_low", "input_high", "output_low", "output_high"]

/-- Every bound is a single value. -/
def isPerTensor (range : QuantRange α) : Bool :=
  range.bounds.all fun (_, bound) => bound.size == 1

/-- At least two levels. The node name only labels the failure. -/
def checkLevels (range : QuantRange α) (node : String) : Except Failure Unit :=
  if range.levels < 2 then .error (.levels node range.levels) else .ok ()

/-- No element of `low` exceeds the element of `high` that broadcasting puts beside
it. An element that is not comparable to its counterpart counts as exceeding it. Bounds
whose common shape no array can have are not compared, and this is no fault of the range. -/
def checkOrdered [Arithmetic α] (node side : String) (low high : Tensor α) : Except Failure Unit :=
  match low.shape.broadcast high.shape with
  | none => .error (.range node (.unrelatedBounds side low.shape high.shape))
  | some shape =>
    if shape.Storable then
      if (low.merge Arithmetic.le high shape).data.all id then .ok ()
      else .error (.range node (.crossedBounds side))
    else .error (.internal (.boundsNotStretched side))

/-- Levels first, then the input bounds, then the output bounds. -/
def validate [Arithmetic α] (range : QuantRange α) (node : String) : Except Failure Unit := do
  range.checkLevels node
  checkOrdered node "input" range.inputLow range.inputHigh
  checkOrdered node "output" range.outputLow range.outputHigh

/-- A bound that does not broadcast to the data is refused under its own name. -/
def checkBound (node bound : String) (value : Tensor α) (data : Shape) : Except Failure Unit :=
  if value.shape.fits data then .ok ()
  else .error (.typing node (.boundBeyondData bound value.shape data))

/-- Snap every element of a tensor. The order of the bounds is not checked here. -/
def apply [Arithmetic α] (range : QuantRange α) (node : String) (data : Tensor α) :
    Except Failure (Tensor α) := do
  range.checkLevels node
  checkBound node "input_low" range.inputLow data.shape
  checkBound node "input_high" range.inputHigh data.shape
  checkBound node "output_low" range.outputLow data.shape
  checkBound node "output_high" range.outputHigh data.shape
  return Tensor.tabulate data.shape fun index =>
    quantizeValue (data.get index) (range.inputLow.spread index) (range.inputHigh.spread index)
      (range.outputLow.spread index) (range.outputHigh.spread index) range.levels

end QuantRange

end RangeFold
