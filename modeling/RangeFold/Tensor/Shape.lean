/-!
# Shapes

A shape lists the dimensions of a tensor, outermost first. Two shapes broadcast
together when, aligned at their last dimensions, each pair agrees or one of the
pair is 1; a shape fits another when broadcasting yields exactly that other one.
An index lists a position along each dimension, and the elements of a tensor are
stored in the order in which `indices` lists them.

Not every shape is one that an array can have. What counts is the extent, the product
of the dimensions that are not empty, so a shape without elements can be too large.
-/

namespace RangeFold

/-- The dimensions of an array, leading one first. -/
abbrev Shape := List Nat

/-- A position along each dimension, outermost first. -/
abbrev Index := List Nat

/-- A list as it stands in messages. -/
def listText {β : Type} [ToString β] (items : List β) : String :=
  "[" ++ ", ".intercalate (items.map toString) ++ "]"

namespace Shape

/-- The number of elements. The empty shape holds one. -/
def volume (shape : Shape) : Nat := shape.foldr (· * ·) 1

/-- The product of the dimensions that are not empty. It is the number of elements where
there are any. -/
def extent (shape : Shape) : Nat := volume (shape.filter fun dim => dim ≠ 0)

/-- The greatest extent of an array, which is the greatest signed 64-bit word. -/
def maxExtent : Nat := 9223372036854775807

/-- An array can have the shape. -/
def Storable (shape : Shape) : Prop := shape.extent ≤ maxExtent

instance (shape : Shape) : Decidable shape.Storable :=
  inferInstanceAs (Decidable (shape.extent ≤ maxExtent))

/-- The common dimension of two aligned ones. -/
def joinDim (left right : Nat) : Option Nat :=
  if left = right ∨ right = 1 then some left
  else if left = 1 then some right
  else none

/-- Broadcasting of shapes written last dimension first. Where one of them ends, the
other continues alone. -/
def joinTrailing : List Nat → List Nat → Option (List Nat)
  | [], right => some right
  | left, [] => some left
  | leftDim :: left, rightDim :: right =>
    match joinDim leftDim rightDim, joinTrailing left right with
    | some dim, some rest => some (dim :: rest)
    | _, _ => none

/-- The shape two shapes broadcast to, or none if they do not. -/
def broadcast (left right : Shape) : Option Shape :=
  (joinTrailing left.reverse right.reverse).map List.reverse

/-- Fitting of shapes written last dimension first. -/
def fitsTrailing : List Nat → List Nat → Bool
  | [], _ => true
  | _ :: _, [] => false
  | fromDim :: own, toDim :: target =>
    (decide (fromDim = 1) || decide (fromDim = toDim)) && fitsTrailing own target

/-- A shape fits a target when it stretches to exactly the target. -/
def fits (own target : Shape) : Bool := fitsTrailing own.reverse target.reverse

/-- All indices of a shape, the last position running fastest. -/
def indices : Shape → List Index
  | [] => [[]]
  | dim :: rest => (List.range dim).flatMap fun position => (indices rest).map (position :: ·)

/-- The place of an index among the indices of its shape. -/
def offset : Shape → Index → Nat
  | _ :: rest, position :: index => position * volume rest + offset rest index
  | _, _ => 0

/-- The index of a shape under an index of a shape it fits: extra leading positions
are dropped and a dimension of 1 is read at 0. -/
def project (own : Shape) (index : Index) : Index :=
  (own.zip (index.drop (index.length - own.length))).map fun (dim, position) =>
    if dim = 1 then 0 else position

/-- Lists of one length joined together have that length times their number. -/
theorem flatMap_length {β γ : Type} (items : List β) (expand : β → List γ) (size : Nat)
    (each : ∀ item, (expand item).length = size) :
    (items.flatMap expand).length = items.length * size := by
  induction items with
  | nil => simp
  | cons item rest inductionHypothesis =>
    rw [List.flatMap_cons, List.length_append, inductionHypothesis, each, List.length_cons,
      Nat.succ_mul, Nat.add_comm]

/-- An empty dimension counts as one. -/
theorem extent_cons (dim : Nat) (rest : Shape) :
    extent (dim :: rest) = (if dim = 0 then 1 else dim) * extent rest := by
  by_cases empty : dim = 0 <;> simp [extent, volume, empty]

/-- The extent is positive, as dimensions of 0 are left out of it. -/
theorem extent_pos (shape : Shape) : 0 < shape.extent := by
  induction shape with
  | nil => exact Nat.one_pos
  | cons dim rest inductionHypothesis =>
    rw [extent_cons]
    split
    · simpa using inductionHypothesis
    · exact Nat.mul_pos (by omega) inductionHypothesis

/-- A shape has as many indices as elements. -/
theorem indices_length (shape : Shape) : shape.indices.length = shape.volume := by
  induction shape with
  | nil => rfl
  | cons dim rest inductionHypothesis =>
    show ((List.range dim).flatMap fun position => (indices rest).map (position :: ·)).length
      = dim * volume rest
    rw [flatMap_length (List.range dim) _ (volume rest)
      (fun position => (List.length_map _).trans inductionHypothesis), List.length_range]

end Shape

end RangeFold
