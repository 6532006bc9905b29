import RangeFold.Proofs.Tensor.Indexing

/-!
# What broadcasting shows

Fitting is a partial order, and what two shapes broadcast to is above both of them and below whatever
else is.

Where a shape fits another, the index that it reads under an index of the other is one of its own,
and reading goes through a shape in between as if that were not there. So a combination of tensors,
stretched to a shape that it fits, shows at each index the combination of what its parts show.

Shapes are compared last dimension first, and so are indices.
-/

namespace RangeFold

variable {α β γ : Type}

namespace Shape

section Trailing

variable {own mid target left right joined : List Nat} {index : List Nat}

/-- The position that is read along a dimension. -/
def pick (dim position : Nat) : Nat := if dim = 1 then 0 else position

/-- What fits has no more dimensions, as every one of them is compared with one of
the target. -/
theorem length_le_of_fitsTrailing (fits : fitsTrailing own target = true) :
    own.length ≤ target.length := by
  induction own generalizing target with
  | nil => exact Nat.zero_le _
  | cons dim own inductionHypothesis =>
    cases target with
    | nil => cases fits
    | cons toDim target =>
      exact Nat.succ_le_succ (inductionHypothesis (Bool.and_eq_true_iff.mp fits).2)

/-- Stretched dimensions and leading ones only add to the extent. A dimension that
is equal adds nothing. -/
theorem extent_le_of_fitsTrailing (fits : fitsTrailing own target = true) :
    extent own ≤ extent target := by
  induction own generalizing target with
  | nil => exact extent_pos target
  | cons dim own inductionHypothesis =>
    cases target with
    | nil => cases fits
    | cons toDim target =>
      simp only [fitsTrailing, Bool.and_eq_true, Bool.or_eq_true, decide_eq_true_eq] at fits
      rw [extent_cons, extent_cons]
      refine Nat.mul_le_mul ?_ (inductionHypothesis fits.2)
      split <;> split <;> omega

/-- Dimensions fit themselves. -/
theorem fitsTrailing_self (own : List Nat) : fitsTrailing own own = true := by
  induction own with
  | nil => rfl
  | cons dim own inductionHypothesis => simp [fitsTrailing, inductionHypothesis]

/-- Fitting is transitive. A dimension of 1 in the middle can only come from a 1, so
the two comparisons combine. -/
theorem fitsTrailing_trans (fits : fitsTrailing own mid = true)
    (fitsToo : fitsTrailing mid target = true) : fitsTrailing own target = true := by
  induction own generalizing mid target with
  | nil => rfl
  | cons dim own inductionHypothesis =>
    cases mid with
    | nil => cases fits
    | cons midDim mid =>
      cases target with
      | nil => cases fitsToo
      | cons toDim target =>
        simp only [fitsTrailing, Bool.and_eq_true, Bool.or_eq_true, decide_eq_true_eq] at *
        exact ⟨by omega, inductionHypothesis fits.2 fitsToo.2⟩

/-- Only equal shapes fit each other. With the lengths equal, two dimensions that
differ would both have to be 1. -/
theorem fitsTrailing_antisymm (fits : fitsTrailing left right = true)
    (fitsBack : fitsTrailing right left = true) : left = right := by
  induction left generalizing right with
  | nil =>
    cases right with
    | nil => rfl
    | cons rightDim right => cases fitsBack
  | cons leftDim left inductionHypothesis =>
    cases right with
    | nil => cases fits
    | cons rightDim right =>
      simp only [fitsTrailing, Bool.and_eq_true, Bool.or_eq_true, decide_eq_true_eq] at *
      rw [inductionHypothesis fits.2 fitsBack.2]
      congr 1
      omega

/-- What two shapes broadcast to, both of them fit. Each dimension of it is one of
theirs, the other being equal or 1. -/
theorem fitsTrailing_of_joinTrailing (joins : joinTrailing left right = some joined) :
    fitsTrailing left joined = true ∧ fitsTrailing right joined = true := by
  induction left generalizing right joined with
  | nil =>
    obtain rfl := Option.some.inj joins
    exact ⟨rfl, fitsTrailing_self right⟩
  | cons leftDim left inductionHypothesis =>
    cases right with
    | nil =>
      obtain rfl := Option.some.inj joins
      exact ⟨fitsTrailing_self _, rfl⟩
    | cons rightDim right =>
      unfold joinTrailing at joins
      split at joins
      · rename_i dim rest joinsDim joinsRest
        obtain rfl := Option.some.inj joins
        obtain ⟨fitsLeft, fitsRight⟩ := inductionHypothesis joinsRest
        simp only [fitsTrailing, fitsLeft, fitsRight, Bool.and_true, Bool.or_eq_true,
          decide_eq_true_eq]
        unfold joinDim at joinsDim
        split at joinsDim
        · obtain rfl := Option.some.inj joinsDim
          omega
        · split at joinsDim
          · obtain rfl := Option.some.inj joinsDim
            omega
          · cases joinsDim
      · cases joins

/-- Two shapes that fit a third one broadcast to a shape that fits it too. Where
both dimensions are more than 1, they are the one of the target. -/
theorem joinTrailing_of_fits (fitsLeft : fitsTrailing left target = true)
    (fitsRight : fitsTrailing right target = true) :
    ∃ joined, joinTrailing left right = some joined ∧ fitsTrailing joined target = true := by
  induction left generalizing right target with
  | nil => exact ⟨right, rfl, fitsRight⟩
  | cons leftDim left inductionHypothesis =>
    cases right with
    | nil => exact ⟨leftDim :: left, rfl, fitsLeft⟩
    | cons rightDim right =>
      cases target with
      | nil => cases fitsLeft
      | cons toDim target =>
        simp only [fitsTrailing, Bool.and_eq_true, Bool.or_eq_true, decide_eq_true_eq] at *
        obtain ⟨rest, joinsRest, fitsRest⟩ := inductionHypothesis fitsLeft.2 fitsRight.2
        obtain ⟨dim, joinsDim, fitsDim⟩ :
            ∃ dim, joinDim leftDim rightDim = some dim ∧ (dim = 1 ∨ dim = toDim) := by
          unfold joinDim
          split
          · exact ⟨leftDim, rfl, fitsLeft.1⟩
          · exact ⟨rightDim, if_pos (by omega), fitsRight.1⟩
        exact ⟨dim :: rest, by simp only [joinTrailing, joinsDim, joinsRest], by
          simp only [fitsTrailing, fitsRest, Bool.and_true, Bool.or_eq_true, decide_eq_true_eq]
          exact fitsDim⟩

/-- A position of a dimension is read as one of the dimension that fits it. It is
the position itself, or 0 in a dimension of 1. -/
theorem forall₂_zipWith_pick (fits : fitsTrailing own target = true)
    (valid : List.Forall₂ (· < ·) index target) :
    List.Forall₂ (· < ·) (List.zipWith pick own index) own := by
  induction own generalizing target index with
  | nil => exact .nil
  | cons dim own inductionHypothesis =>
    cases valid with
    | nil => cases fits
    | cons within others =>
      simp only [fitsTrailing, Bool.and_eq_true, Bool.or_eq_true, decide_eq_true_eq] at fits
      refine .cons ?_ (inductionHypothesis fits.2 others)
      unfold pick
      split <;> omega

/-- A shape in between changes nothing about what is read. A position that has
become 0 stays 0. -/
theorem zipWith_pick_zipWith_pick (fits : fitsTrailing own mid = true) :
    List.zipWith pick own (List.zipWith pick mid index) = List.zipWith pick own index := by
  induction own generalizing mid index with
  | nil => rfl
  | cons dim own inductionHypothesis =>
    cases mid with
    | nil => cases fits
    | cons midDim mid =>
      cases index with
      | nil => rfl
      | cons position index =>
        simp only [fitsTrailing, Bool.and_eq_true, Bool.or_eq_true, decide_eq_true_eq] at fits
        simp only [List.zipWith_cons_cons, inductionHypothesis fits.2]
        congr 1
        unfold pick
        grind

/-- A valid index into a shape is projected to itself: where the dimension is 1 the
position is 0 already. -/
theorem zipWith_pick_self (valid : List.Forall₂ (· < ·) index own) :
    List.zipWith pick own index = index := by
  induction valid with
  | nil => rfl
  | @cons position dim _ _ within _ inductionHypothesis =>
    rw [List.zipWith_cons_cons, inductionHypothesis]
    congr 1
    unfold pick
    split <;> omega

end Trailing

section Project

variable {own mid target left right joined : Shape} {index : Index}

/-- Reading aligns indices at their last positions. Leading entries that the shape
has no dimension for are dropped. -/
theorem project_eq (short : own.length ≤ index.length) :
    own.project index = (List.zipWith pick own.reverse index.reverse).reverse := by
  have aligned : (index.drop (index.length - own.length)).length = own.length := by
    rw [List.length_drop]
    omega
  have picked : own.project index =
      List.zipWith pick own (index.drop (index.length - own.length)) := by
    rw [project, List.zip, List.map_zipWith]
    rfl
  have taken :
      (index.drop (index.length - own.length)).reverse = index.reverse.take own.length := by
    rw [List.reverse_drop]
    congr 1
    omega
  rw [picked, ← List.reverse_inj, List.reverse_reverse, List.reverse_zipWith aligned.symm, taken]
  conv_rhs => rw [List.zipWith_eq_zipWith_take_min]
  simp [Nat.min_eq_left short, List.take_of_length_le]

/-- What two shapes broadcast to, both of them fit. It is an upper bound. -/
theorem fits_of_broadcast (joins : left.broadcast right = some joined) :
    left.fits joined = true ∧ right.fits joined = true := by
  obtain ⟨trailing, joinsTrailing, rfl⟩ := Option.map_eq_some_iff.mp joins
  simpa [fits] using fitsTrailing_of_joinTrailing joinsTrailing

/-- Among the shapes that fit a third one, any two have a common shape. That common
shape fits the third one again. -/
theorem broadcast_of_fits (fitsLeft : left.fits target = true)
    (fitsRight : right.fits target = true) :
    ∃ joined, left.broadcast right = some joined ∧ Shape.fits joined target = true := by
  obtain ⟨trailing, joins, fits⟩ := joinTrailing_of_fits fitsLeft fitsRight
  exact ⟨trailing.reverse, by rw [broadcast, joins, Option.map_some], by
    rwa [Shape.fits, List.reverse_reverse]⟩

/-- Shapes broadcast together when both fit some shape. There is no third way for
them to fail. -/
theorem broadcast_eq_none_iff : left.broadcast right = none ↔
    ∀ target : Shape, ¬ (left.fits target = true ∧ right.fits target = true) := by
  constructor
  · rintro apart target ⟨fitsLeft, fitsRight⟩
    obtain ⟨joined, joins, -⟩ := broadcast_of_fits fitsLeft fitsRight
    cases apart.symm.trans joins
  · intro none
    cases joins : left.broadcast right with
    | none => rfl
    | some joined => exact absurd (fits_of_broadcast joins) (none joined)

/-- A shape fits itself, read from the trailing dimensions. -/
theorem fits_self (shape : Shape) : shape.fits shape = true := fitsTrailing_self _

/-- Fitting is transitive on shapes. -/
theorem fits_trans (fits : own.fits mid = true) (fitsToo : mid.fits target = true) :
    own.fits target = true := fitsTrailing_trans fits fitsToo

/-- Shapes that fit each other are equal, so fitting is a partial order. -/
theorem fits_antisymm (fits : left.fits right = true) (fitsBack : right.fits left = true) :
    left = right := List.reverse_injective (fitsTrailing_antisymm fits fitsBack)

/-- The rank does not fall along fitting. -/
theorem length_le_of_fits (fits : own.fits target = true) : own.length ≤ target.length := by
  simpa using length_le_of_fitsTrailing fits

/-- The order of the dimensions does not matter for the extent. It is a product. -/
theorem extent_of_perm (same : own.Perm target) : own.extent = target.extent := by
  induction same with
  | nil => rfl
  | cons dim _ inductionHypothesis => rw [extent_cons, extent_cons, inductionHypothesis]
  | swap first second rest =>
    rw [extent_cons, extent_cons, extent_cons, extent_cons, Nat.mul_left_comm]
  | trans _ _ first second => exact first.trans second

/-- A shape that fits another one is not larger. Dimensions of 0 are left out on
both sides, and a 0 is only matched by a 0 or stretched to from a 1. -/
theorem extent_le_of_fits (fits : own.fits target = true) : own.extent ≤ target.extent := by
  rw [extent_of_perm (List.reverse_perm own).symm, extent_of_perm (List.reverse_perm target).symm]
  exact extent_le_of_fitsTrailing fits

/-- So whatever fits a shape that an array can have is itself such a shape.
Spreading can only add to the size. -/
theorem Storable.of_fits (stored : target.Storable) (fits : own.fits target = true) :
    own.Storable := Nat.le_trans (extent_le_of_fits fits) stored

/-- The size limit does not depend on the order of the dimensions, so a transposed
array can be stored where the original could. -/
theorem Storable.of_perm (stored : target.Storable) (same : own.Perm target) : own.Storable :=
  Nat.le_trans (Nat.le_of_eq (extent_of_perm same)) stored

/-- The index that a shape reads is one of its own. So an element is there to be
read. -/
theorem project_mem (fits : own.fits target = true) (inside : index ∈ target.indices) :
    own.project index ∈ own.indices := by
  have short : own.length ≤ index.length := by
    rw [length_of_mem_indices inside]
    exact length_le_of_fits fits
  have valid := List.forall₂_reverse_iff.mpr (mem_indices_iff.mp inside)
  rw [project_eq short, mem_indices_iff, ← List.forall₂_reverse_iff, List.reverse_reverse]
  exact forall₂_zipWith_pick fits valid

/-- A shape in between changes nothing about the index that is read. Spreading twice
is spreading at once. -/
theorem project_project (fits : own.fits mid = true) (fitsToo : mid.fits target = true)
    (inside : index ∈ target.indices) : own.project (mid.project index) = own.project index := by
  have between := length_of_mem_indices (project_mem fitsToo inside)
  have ofTarget := length_of_mem_indices inside
  have shortMid := length_le_of_fits fitsToo
  have short := length_le_of_fits fits
  rw [project_eq (by omega), project_eq (by omega), project_eq (by omega), List.reverse_reverse,
    zipWith_pick_zipWith_pick fits]

/-- A shape reads its own indices as they are. No dimension is stretched. -/
theorem project_self (inside : index ∈ own.indices) : own.project index = index := by
  have valid := mem_indices_iff.mp inside
  rw [project_eq (Nat.le_of_eq valid.length_eq.symm),
    zipWith_pick_self (List.forall₂_reverse_iff.mpr valid), List.reverse_reverse]

end Project

end Shape

namespace Tensor

variable [Inhabited α] [Inhabited β] [Inhabited γ] {target : Shape} {index : Index}

/-- Over its own shape a tensor shows what it was tabulated with. Reading through
the shape and reading directly agree there. -/
theorem spread_tabulate {element : Index → α} (inside : index ∈ target.indices) :
    (tabulate target element).spread index = element index := by
  show (tabulate target element).get (target.project index) = _
  rw [Shape.project_self inside, get_tabulate inside]

/-- Mapping the elements and spreading the array commute. -/
theorem spread_map {function : α → β} {tensor : Tensor α} (fits : tensor.shape.fits target = true)
    (inside : index ∈ target.indices) :
    (tensor.map function).spread index = function (tensor.spread index) :=
  get_map (Shape.project_mem fits inside)

omit [Inhabited γ] in
/-- A combination is one over the common shape, which an array must be able to have. -/
theorem combine_eq_some_iff {function : α → β → γ} {left : Tensor α} {right : Tensor β}
    {combined : Tensor γ} : left.combine function right = some combined ↔
      ∃ shape, left.shape.broadcast right.shape = some shape ∧ shape.Storable ∧
        left.merge function right shape = combined := by
  simp only [combine, Option.bind_eq_some_iff, Option.ite_none_right_eq_some, Option.some.injEq]

omit [Inhabited γ] in
/-- There is none if the shapes have nothing in common or too much. -/
theorem combine_eq_none_iff {function : α → β → γ} {left : Tensor α} {right : Tensor β} :
    left.combine function right = none ↔ left.shape.broadcast right.shape = none ∨
      ∃ shape, left.shape.broadcast right.shape = some shape ∧ ¬ shape.Storable := by
  unfold combine
  cases left.shape.broadcast right.shape <;> simp

omit [Inhabited γ] in
/-- Two tensors that stretch to a shape that an array can have can be combined, and the outcome
stretches to it. -/
theorem combine_of_fits {left : Tensor α} {right : Tensor β} (function : α → β → γ)
    (fitsLeft : left.shape.fits target = true) (fitsRight : right.shape.fits target = true)
    (stored : target.Storable) :
    ∃ combined, left.combine function right = some combined ∧
      combined.shape.fits target = true := by
  obtain ⟨shape, joins, fits⟩ := Shape.broadcast_of_fits fitsLeft fitsRight
  exact ⟨_, combine_eq_some_iff.mpr ⟨shape, joins, stored.of_fits fits, rfl⟩, fits⟩

omit [Inhabited γ] in
/-- A combination is over the least shape that both stretch to, so it stretches to whatever they do. -/
theorem fits_of_combine {function : α → β → γ} {left : Tensor α} {right : Tensor β}
    {combined : Tensor γ} (combines : left.combine function right = some combined)
    (fitsLeft : left.shape.fits target = true) (fitsRight : right.shape.fits target = true) :
    combined.shape.fits target = true := by
  obtain ⟨shape, joins, -, rfl⟩ := combine_eq_some_iff.mp combines
  obtain ⟨least, joinsLeast, fits⟩ := Shape.broadcast_of_fits fitsLeft fitsRight
  obtain rfl : shape = least := Option.some.inj (joins.symm.trans joinsLeast)
  exact fits

/-- A stretched combination shows the combination of what its parts show. -/
theorem spread_combine {function : α → β → γ} {left : Tensor α} {right : Tensor β}
    {combined : Tensor γ} (combines : left.combine function right = some combined)
    (fits : combined.shape.fits target = true) (inside : index ∈ target.indices) :
    combined.spread index = function (left.spread index) (right.spread index) := by
  obtain ⟨shape, joins, -, rfl⟩ := combine_eq_some_iff.mp combines
  obtain ⟨fitsLeft, fitsRight⟩ := Shape.fits_of_broadcast joins
  have fits : shape.fits target = true := fits
  show (tabulate shape _).get (shape.project index) = _
  rw [get_tabulate (Shape.project_mem fits inside)]
  simp only [spread, Shape.project_project fitsLeft fits inside,
    Shape.project_project fitsRight fits inside]

end Tensor

end RangeFold
