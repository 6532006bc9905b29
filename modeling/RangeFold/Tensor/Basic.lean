import RangeFold.Number.Arithmetic
import RangeFold.Tensor.Shape

/-!
# Tensors

A tensor is a shape with as many elements, stored in index order. Reading is
total: an index outside the tensor reads the default element. Broadcasting,
elementwise combination and axis permutation are all stated by what the result
holds at each index.

The type does not bound the shape of a tensor. Where elements are laid out anew or
combined over a common shape, a shape that no array can have is refused.
-/

namespace RangeFold

/-- An array: its shape and, in row-major order, as many elements as the shape has
places. -/
structure Tensor (α : Type) where
  shape : Shape
  data : List α
  size_eq : data.length = shape.volume
deriving DecidableEq

/-- Why elements do not take a layout. -/
inductive LayoutFault where
  | sizeMismatch (length : Nat) (shape : Shape)
  | tooLarge
  | rankMismatch (axes : List Nat) (rank : Nat)
  | notPermutation (axes : List Nat) (rank : Nat)
deriving DecidableEq

/-- The text of a fault of a layout. What is too large for an array is reported as
an overflow. -/
def LayoutFault.message : LayoutFault → String
  | sizeMismatch length shape =>
    "Data length " ++ toString length ++ " does not match shape " ++ listText shape ++
      " (expected " ++ toString shape.volume ++ ")"
  | tooLarge => "ShapeError/Overflow: arithmetic overflow"
  | rankMismatch axes rank =>
    "Permutation " ++ listText axes ++ " does not match rank " ++ toString rank
  | notPermutation axes rank =>
    "Axes " ++ listText axes ++ " do not permute rank " ++ toString rank

namespace Tensor

variable {α β γ : Type}

/-- A tensor of the given elements, refused unless the shape has as many and an array can
have it. -/
def ofData (data : List α) (shape : Shape) : Except LayoutFault (Tensor α) :=
  if sized : data.length = shape.volume then
    if shape.Storable then .ok ⟨shape, data, sized⟩ else .error .tooLarge
  else .error (.sizeMismatch data.length shape)

/-- The rank-1 tensor of the elements. -/
def vector (data : List α) : Tensor α :=
  ⟨[data.length], data, (Nat.mul_one _).symm⟩

/-- The rank-0 tensor of one element. -/
def scalar (value : α) : Tensor α := ⟨[], [value], rfl⟩

/-- The elements of a tensor, given by index. A shape without elements may have dimensions
of any size beside its empty one, so these are not listed. -/
def elements (shape : Shape) (element : Index → α) : List α :=
  if shape.volume = 0 then [] else shape.indices.map element

/-- There is one element for each index, in the order of the indices. -/
theorem elements_eq (shape : Shape) (element : Index → α) :
    elements shape element = shape.indices.map element := by
  unfold elements
  split
  · rename_i empty
    rw [List.eq_nil_of_length_eq_zero (shape.indices_length.trans empty), List.map_nil]
  · rfl

/-- The tensor with a given element at each index. -/
def tabulate (shape : Shape) (element : Index → α) : Tensor α :=
  ⟨shape, elements shape element, by
    rw [elements_eq, List.length_map, shape.indices_length]⟩

/-- The number of dimensions of an array. -/
def rank (tensor : Tensor α) : Nat := tensor.shape.length

/-- The number of stored elements. -/
def size (tensor : Tensor α) : Nat := tensor.data.length

/-- The element at an index of the tensor's own shape. -/
def get [Inhabited α] (tensor : Tensor α) (index : Index) : α :=
  (tensor.data[tensor.shape.offset index]?).getD default

/-- The element that broadcasting shows at an index of a shape the tensor fits. -/
def spread [Inhabited α] (tensor : Tensor α) (index : Index) : α :=
  tensor.get (tensor.shape.project index)

/-- The tensor stretched to a shape, if it fits it. -/
def broadcastTo [Inhabited α] (tensor : Tensor α) (target : Shape) : Option (Tensor α) :=
  if tensor.shape.fits target then some (tabulate target tensor.spread) else none

/-- Change every element; the shape stays. -/
def map (function : α → β) (tensor : Tensor α) : Tensor β :=
  ⟨tensor.shape, tensor.data.map function, (List.length_map _).trans tensor.size_eq⟩

/-- Two tensors combined elementwise over a shape that both fit. -/
def merge [Inhabited α] [Inhabited β] (function : α → β → γ) (left : Tensor α) (right : Tensor β)
    (shape : Shape) : Tensor γ :=
  tabulate shape fun index => function (left.spread index) (right.spread index)

/-- Combine two tensors elementwise over their common shape, if they have one and an array
can have it. -/
def combine [Inhabited α] [Inhabited β] (function : α → β → γ) (left : Tensor α)
    (right : Tensor β) : Option (Tensor γ) :=
  (left.shape.broadcast right.shape).bind fun shape =>
    if shape.Storable then some (left.merge function right shape) else none

/-- The same elements in the same order under another shape. -/
def reshape (tensor : Tensor α) (shape : Shape) : Except LayoutFault (Tensor α) :=
  ofData tensor.data shape

/-- The index of the input that a permuted index reads: its position along the axis
that comes to stand at each place. -/
def sourceIndex (axes : List Nat) (index : Index) : Index :=
  (List.range axes.length).map fun axis => index.getD (axes.idxOf axis) 0

/-- Reorder the axes: axis `k` of the result is axis `axes[k]` of the tensor. -/
def permute [Inhabited α] (tensor : Tensor α) (axes : List Nat) : Except LayoutFault (Tensor α) :=
  if axes.length ≠ tensor.rank then .error (.rankMismatch axes tensor.rank)
  else if (∀ axis ∈ axes, axis < tensor.rank) ∧ axes.Nodup then
    .ok (tabulate (axes.map fun axis => tensor.shape.getD axis 0) fun index =>
      tensor.get (sourceIndex axes index))
  else .error (.notPermutation axes tensor.rank)

/-- Equality of shapes and, in the elements' own sense, of all elements. -/
def same [Arithmetic α] (left right : Tensor α) : Bool :=
  left.shape == right.shape &&
    left.data.length == right.data.length &&
      (left.data.zip right.data).all fun (leftValue, rightValue) =>
        Arithmetic.same leftValue rightValue

end Tensor

end RangeFold
