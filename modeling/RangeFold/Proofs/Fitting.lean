import RangeFold.Proofs.Tensor.Broadcast

/-!
# Least common shapes

Fitting is a partial order on shapes, and what two shapes broadcast to is their least upper bound in
it. Not every two shapes have an upper bound, but those that have one have a least one. So the laws of
broadcasting need no second look at the dimensions: a least upper bound does not depend on the order or
the grouping of the shapes that it is taken over, failures to have one included.
-/

namespace RangeFold.Shape

variable {left right third joined : Shape} {shapes : List Shape}

/-- A shape fits exactly those shapes that all of some shapes fit. -/
def LeastOver (shapes : List Shape) (joined : Shape) : Prop :=
  ∀ target : Shape, joined.fits target = true ↔ ∀ shape ∈ shapes, shape.fits target = true

/-- Some shapes have one least common shape at most. Two least ones would fit each
other. -/
theorem LeastOver.unique {other : Shape} (least : LeastOver shapes joined)
    (leastToo : LeastOver shapes other) : joined = other :=
  fits_antisymm ((least other).mpr ((leastToo other).mp (fits_self other)))
    ((leastToo joined).mpr ((least joined).mp (fits_self joined)))

/-- The order of the shapes does not matter. Only membership is asked of the list. -/
theorem LeastOver.of_perm {others : List Shape} (same : shapes.Perm others) :
    LeastOver shapes joined ↔ LeastOver others joined := by
  unfold LeastOver
  simp only [same.mem_iff]

/-- Two shapes fit a third one exactly if they broadcast to a shape that fits it.
One direction is transitivity, the other that the common shape is the least. -/
theorem fits_both_iff {target : Shape} : left.fits target = true ∧ right.fits target = true ↔
    ∃ joined, left.broadcast right = some joined ∧ Shape.fits joined target = true := by
  constructor
  · rintro ⟨fitsLeft, fitsRight⟩
    exact broadcast_of_fits fitsLeft fitsRight
  · rintro ⟨joined, joins, fits⟩
    obtain ⟨fitsLeft, fitsRight⟩ := fits_of_broadcast joins
    exact ⟨fits_trans fitsLeft fits, fits_trans fitsRight fits⟩

/-- Broadcasting gives the least common shape of two shapes. Commutativity and
associativity follow from this. -/
theorem broadcast_eq_some_iff :
    left.broadcast right = some joined ↔ LeastOver [left, right] joined := by
  have least {joined : Shape} (joins : left.broadcast right = some joined) :
      LeastOver [left, right] joined := by
    intro target
    simp [fits_both_iff, joins]
  refine ⟨least, fun leastToo => ?_⟩
  have fits := (leastToo joined).mp (fits_self joined)
  obtain ⟨found, joins, -⟩ := broadcast_of_fits (fits left (by simp)) (fits right (by simp))
  rw [joins, (least joins).unique leastToo]

/-- A shape fits another one exactly if they broadcast to the other one. The order
can be told from the operation. -/
theorem fits_iff_broadcast : left.fits right = true ↔ left.broadcast right = some right := by
  rw [broadcast_eq_some_iff]
  constructor
  · intro fits target
    simpa using fun fitsToo => fits_trans fits fitsToo
  · intro least
    exact (least right).mp (fits_self right) left (by simp)

/-- Which shape is named first does not matter, neither for whether the two
broadcast nor for what they broadcast to. The least upper bound of a partial order
is the same on either side. -/
theorem broadcast_comm (left right : Shape) : left.broadcast right = right.broadcast left := by
  ext1 joined
  rw [broadcast_eq_some_iff, broadcast_eq_some_iff]
  exact LeastOver.of_perm (.swap right left [])

/-- Broadcasting a third shape to what two broadcast to gives the least common shape of the three. -/
theorem bind_broadcast_eq_some_iff :
    (left.broadcast right).bind (·.broadcast third) = some joined ↔
      LeastOver [left, right, third] joined := by
  rw [Option.bind_eq_some_iff]
  constructor
  · rintro ⟨both, joins, joinsThird⟩ target
    simp [broadcast_eq_some_iff.mp joinsThird target, broadcast_eq_some_iff.mp joins target,
      and_assoc]
  · intro least
    have fits := (least joined).mp (fits_self joined)
    obtain ⟨both, joins, -⟩ := broadcast_of_fits (fits left (by simp)) (fits right (by simp))
    refine ⟨both, joins, broadcast_eq_some_iff.mpr fun target => ?_⟩
    simp [least target, broadcast_eq_some_iff.mp joins target, and_assoc]

/-- Three shapes broadcast to the same from either end, and fail to from either end:
both are the least shape that all three fit. -/
theorem broadcast_assoc (left right third : Shape) :
    (left.broadcast right).bind (·.broadcast third) =
      (right.broadcast third).bind left.broadcast := by
  have turned : left.broadcast = (·.broadcast left) := funext (broadcast_comm left)
  ext1 joined
  rw [turned, bind_broadcast_eq_some_iff, bind_broadcast_eq_some_iff]
  exact LeastOver.of_perm (.cons right (.swap third left []))

/-- Broadcasting gives least upper bounds in the order of fitting. Fitting is a partial order. Two shapes
broadcast to a shape exactly if both fit some shape, and then to the one that fits all of those. A shape
fits another one exactly if the two broadcast to that other one. So broadcasting is commutative,
idempotent and associative, failures included, and the empty shape is its unit. -/
theorem broadcast_least (left right third : Shape) :
    left.fits left = true ∧
    (left.fits right = true → right.fits third = true → left.fits third = true) ∧
    (left.fits right = true → right.fits left = true → left = right) ∧
    (left.fits third = true ∧ right.fits third = true ↔
      ∃ joined, left.broadcast right = some joined ∧ Shape.fits joined third = true) ∧
    (left.broadcast right = none ↔
      ¬ ∃ target : Shape, left.fits target = true ∧ right.fits target = true) ∧
    (left.fits right = true ↔ left.broadcast right = some right) ∧
    left.broadcast right = right.broadcast left ∧
    left.broadcast left = some left ∧
    (left.broadcast right).bind (·.broadcast third) =
      (right.broadcast third).bind left.broadcast ∧
    Shape.broadcast [] left = some left ∧ left.broadcast [] = some left := by
  have bounded : left.broadcast right = none ↔
      ¬ ∃ target : Shape, left.fits target = true ∧ right.fits target = true := by
    rw [broadcast_eq_none_iff, not_exists]
  have unit : Shape.broadcast [] left = some left := fits_iff_broadcast.mp rfl
  exact ⟨fits_self left, fits_trans, fits_antisymm, fits_both_iff, bounded, fits_iff_broadcast,
    broadcast_comm left right, fits_iff_broadcast.mp (fits_self left),
    broadcast_assoc left right third, unit, broadcast_comm [] left ▸ unit⟩

/-- A column of rows fits the shape that it makes with a row, and that one fits batches of itself. Two
shapes of other dimensions have no shape in common, in whatever grouping a third one is added. -/
theorem column_broadcast :
    Shape.fits [2, 1] [2, 3] = true ∧ Shape.fits [2, 3] [4, 2, 3] = true ∧
      Shape.fits [2, 1] [4, 2, 3] = true ∧
      (Shape.broadcast [2, 1] [3]).bind (·.broadcast [0, 1, 1]) = some [0, 2, 3] ∧
      (Shape.broadcast [3] [0, 1, 1]).bind (Shape.broadcast [2, 1]) = some [0, 2, 3] ∧
      (Shape.broadcast [3] [1, 2]).bind (Shape.broadcast [0]) = none := by
  have column : Shape.fits [2, 1] [2, 3] = true := by decide
  have batch : Shape.fits [2, 3] [4, 2, 3] = true := by decide
  obtain ⟨-, through, -⟩ := broadcast_least [2, 1] [2, 3] [4, 2, 3]
  obtain ⟨-, -, -, -, -, -, -, -, grouped, -⟩ := broadcast_least [2, 1] [3] [0, 1, 1]
  obtain ⟨-, -, -, -, -, -, -, -, refused, -⟩ := broadcast_least [0] [3] [1, 2]
  have found : (Shape.broadcast [2, 1] [3]).bind (·.broadcast [0, 1, 1]) = some [0, 2, 3] := by
    decide
  exact ⟨column, batch, through column batch, found, grouped ▸ found,
    refused ▸ by decide⟩

end RangeFold.Shape
