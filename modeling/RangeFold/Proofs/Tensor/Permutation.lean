import RangeFold.Proofs.Tensor.Indexing
import RangeFold.Tensor.Axis
import Mathlib.Data.List.Perm.Subperm

/-!
# Permuted axes

A list permutes the axes of a rank when it is a rearrangement of the numbers below the rank. The
permuted tensor holds at each index what the tensor held at the index it is carried from: along the
axis that comes to stand at a place, that index has the position at the place. There is one such index,
it is an index of the tensor, and each index of the tensor is carried to one. What is carried twice is
carried at once, by the composition of the two permutations, and the axes of a permutation can be put
back in their own order.

What is made of each element by itself can as well be made before the axes are permuted.
-/

namespace RangeFold

variable {α β : Type}

section Listed

variable {axes : List Nat} {rank axis : Nat} (permutes : axes.Perm (List.range rank))
include permutes

/-- A permutation lists as many axes as there are. -/
theorem length_of_perm : axes.length = rank := by
  simpa using permutes.length_eq

/-- It lists those within the rank. Nothing else about the list is needed in most of
what follows. -/
theorem mem_iff_of_perm : axis ∈ axes ↔ axis < rank := permutes.mem_iff.trans List.mem_range

/-- Each of them has a place in it. It has one place only, as the list has no
repetition. -/
theorem exists_place_of_perm (within : axis < rank) : ∃ place : Nat, axes[place]? = some axis :=
  List.mem_iff_getElem?.mp ((mem_iff_of_perm permutes).mpr within)

end Listed

/-- A list names each axis of a rank once. This is what the check of a list of axes
looks at. -/
theorem perm_range_iff {axes : List Nat} {rank : Nat} : axes.Perm (List.range rank) ↔
    axes.length = rank ∧ (∀ axis ∈ axes, axis < rank) ∧ axes.Nodup := by
  constructor
  · intro permutes
    exact ⟨length_of_perm permutes, fun _ => (mem_iff_of_perm permutes).mp,
      permutes.nodup_iff.mpr List.nodup_range⟩
  · rintro ⟨sized, inside, distinct⟩
    have among : axes ⊆ List.range rank := fun axis listed => List.mem_range.mpr (inside axis listed)
    exact (List.subperm_of_subset distinct among).perm_of_length_le (by simp [sized])

/-- Signed axes are accepted exactly if they are the numbers of a permutation.
Negative axes are never accepted here. -/
theorem permutationOf_eq_ok_iff {axes : List Int} {rank : Nat} {positions : List Nat} :
    permutationOf axes rank = .ok positions ↔
      axes = positions.map Int.ofNat ∧ positions.Perm (List.range rank) := by
  rw [perm_range_iff]
  unfold permutationOf
  constructor
  · intro accepted
    split at accepted
    · cases accepted
    · rename_i sized
      split at accepted
      · rename_i named
        obtain ⟨inside, distinct⟩ := named
        obtain rfl := Except.ok.inj accepted
        have stated : axes = (axes.map Int.toNat).map Int.ofNat := by
          have same : axes.map (Int.ofNat ∘ Int.toNat) = axes.map id :=
            List.map_congr_left fun axis listed => Int.toNat_of_nonneg (inside axis listed).1
          rw [List.map_map, same, List.map_id]
        refine ⟨stated, by simpa using sized, ?_, ?_⟩
        · intro position listed
          obtain ⟨axis, stated, rfl⟩ := List.mem_map.mp listed
          have bounds := inside axis stated
          omega
        · exact List.Nodup.of_map Int.ofNat (stated ▸ distinct)
      · cases accepted
  · rintro ⟨rfl, sized, inside, distinct⟩
    have below : ∀ axis ∈ positions.map Int.ofNat, 0 ≤ axis ∧ axis < rank := by
      simpa using inside
    rw [if_neg (by simpa using sized), if_pos ⟨below, distinct.map fun _ _ => Int.ofNat.inj⟩,
      List.map_map]
    exact congrArg Except.ok (List.map_id positions)

namespace Tensor

/-- An index is carried from an origin: the position at each place is the one that the origin has along
the axis that comes to stand there. -/
def CarriedFrom (axes : List Nat) (origin index : Index) : Prop :=
  ∀ (place axis : Nat), axes[place]? = some axis → origin[axis]? = index[place]?

/-- The shape of a tensor after its axes have been permuted. -/
def permutedShape (axes : List Nat) (shape : Shape) : Shape :=
  axes.map fun axis => shape.getD axis 0

/-- Axes in their own order leave the dimensions where they are. It is the unit of
the composition. -/
theorem permutedShape_range (shape : Shape) :
    permutedShape (List.range shape.length) shape = shape := by
  refine List.ext_getElem (by simp [permutedShape]) fun axis _ within => ?_
  simp [permutedShape, List.getElem?_eq_getElem within]

section Origin

variable {axes : List Nat} {shape : Shape} {origin index : Index} {rank : Nat}

/-- The index read from has one entry for each axis. -/
theorem length_sourceIndex : (sourceIndex axes index).length = axes.length := by
  simp [sourceIndex]

/-- Along an axis the source is read at the entry of the index that the axis has
been moved to. -/
theorem sourceIndex_getElem? {axis : Nat} (inside : axis < axes.length) :
    (sourceIndex axes index)[axis]? = some (index.getD (axes.idxOf axis) 0) := by
  simp [sourceIndex, inside]

/-- The index that is read is one that is carried to the index. The computed index
meets its description. -/
theorem carriedFrom_sourceIndex (permutes : axes.Perm (List.range rank))
    (sized : index.length = rank) : CarriedFrom axes (sourceIndex axes index) index := by
  obtain ⟨length, inside, distinct⟩ := perm_range_iff.mp permutes
  intro place axis found
  obtain ⟨within, rfl⟩ := List.getElem?_eq_some_iff.mp found
  have bounded : axes[place] < axes.length := length ▸ inside _ (List.getElem_mem within)
  have inIndex : place < index.length := by omega
  rw [sourceIndex_getElem? bounded, distinct.idxOf_getElem, List.getD_eq_getElem?_getD,
    List.getElem?_eq_getElem inIndex]
  rfl

/-- No other index is. Every entry of it is found at the place where its axis went. -/
theorem CarriedFrom.eq_sourceIndex (carried : CarriedFrom axes origin index)
    (permutes : axes.Perm (List.range rank)) (sized : index.length = rank)
    (sizedOrigin : origin.length = rank) : origin = sourceIndex axes index := by
  have length := length_of_perm permutes
  refine List.ext_getElem? fun axis => ?_
  by_cases within : axis < rank
  · obtain ⟨place, found⟩ := exists_place_of_perm permutes within
    rw [carried place axis found, carriedFrom_sourceIndex permutes sized place axis found]
  · rw [List.getElem?_eq_none (by omega),
      List.getElem?_eq_none (by rw [length_sourceIndex]; omega)]

/-- And an origin is carried to one index. The relation is one to one. -/
theorem CarriedFrom.unique {other : Index} (carried : CarriedFrom axes origin index)
    (permutes : axes.Perm (List.range rank)) (sized : index.length = rank)
    (carriedToo : CarriedFrom axes origin other) (sizedOther : other.length = rank) :
    index = other := by
  have length := length_of_perm permutes
  refine List.ext_getElem? fun place => ?_
  by_cases within : place < axes.length
  · have placed := List.getElem?_eq_getElem within
    exact (carried place _ placed).symm.trans (carriedToo place _ placed)
  · rw [List.getElem?_eq_none (by omega), List.getElem?_eq_none (by omega)]

/-- Permuting the axes keeps the rank, and with it the length of the indices. -/
theorem length_of_mem_permutedShape (permutes : axes.Perm (List.range shape.length))
    (inside : index ∈ (permutedShape axes shape).indices) : index.length = shape.length := by
  have length := length_of_perm permutes
  rw [Shape.length_of_mem_indices inside, permutedShape, List.length_map, length]

/-- An index of the permuted shape is carried from an index of the shape. So there
is an element to be read. -/
theorem sourceIndex_mem (permutes : axes.Perm (List.range shape.length))
    (inside : index ∈ (permutedShape axes shape).indices) :
    sourceIndex axes index ∈ shape.indices := by
  have length := length_of_perm permutes
  obtain ⟨-, below⟩ := Shape.mem_indices_iff_lt.mp inside
  have sized := length_of_mem_permutedShape permutes inside
  refine Shape.mem_indices_iff_lt.mpr ⟨length_sourceIndex.trans length, ?_⟩
  intro axis position dim placed found
  obtain ⟨within, -⟩ := List.getElem?_eq_some_iff.mp found
  obtain ⟨place, here⟩ := exists_place_of_perm permutes within
  rw [carriedFrom_sourceIndex permutes sized place axis here] at placed
  refine below place position dim placed ?_
  simp [permutedShape, here, List.getD_eq_getElem?_getD, found]

/-- The dimensions stay, in another order. Extents and volumes depend on nothing
more. -/
theorem permutedShape_perm (permutes : axes.Perm (List.range shape.length)) :
    (permutedShape axes shape).Perm shape := by
  have listed : permutedShape (List.range shape.length) shape = shape := permutedShape_range shape
  exact (permutes.map fun axis => shape.getD axis 0).trans (.of_eq listed)

/-- As many elements stay. A permuted array fills its shape. -/
theorem volume_permutedShape (permutes : axes.Perm (List.range shape.length)) :
    Shape.volume (permutedShape axes shape) = shape.volume := (permutedShape_perm permutes).foldr_eq _

/-- Each index of the shape is read once. Reading all of them rearranges the
elements. -/
theorem sourceIndex_perm (permutes : axes.Perm (List.range shape.length)) :
    ((permutedShape axes shape).indices.map (sourceIndex axes)).Perm shape.indices := by
  have distinct : ((permutedShape axes shape).indices.map (sourceIndex axes)).Nodup := by
    refine List.Nodup.map_on ?_ (Shape.indices_nodup _)
    intro first firstListed second secondListed same
    have firstSized := length_of_mem_permutedShape permutes firstListed
    have secondSized := length_of_mem_permutedShape permutes secondListed
    have carried := carriedFrom_sourceIndex permutes secondSized
    rw [← same] at carried
    exact (carriedFrom_sourceIndex permutes firstSized).unique permutes firstSized carried secondSized
  have inside : (permutedShape axes shape).indices.map (sourceIndex axes) ⊆ shape.indices := by
    intro origin listed
    obtain ⟨index, member, rfl⟩ := List.mem_map.mp listed
    exact sourceIndex_mem permutes member
  have counted : shape.indices.length =
      ((permutedShape axes shape).indices.map (sourceIndex axes)).length := by
    rw [List.length_map, Shape.indices_length, Shape.indices_length, volume_permutedShape permutes]
  exact (List.subperm_of_subset distinct inside).perm_of_length_le (Nat.le_of_eq counted)

end Origin

section Compose

variable {first second axes : List Nat} {rank : Nat}

/-- The axes that come to stand at each place when a first permutation is followed by a second. -/
def composeAxes (first second : List Nat) : List Nat := second.map fun axis => first.getD axis 0

/-- The axes that undo a permutation: at each place stands the place where its own axis went. -/
def inverseAxes (axes : List Nat) : List Nat := (List.range axes.length).map axes.idxOf

/-- The axes of a first permutation are themselves put in another order by the
second. A list of axes is permuted like a shape. -/
theorem composeAxes_eq : composeAxes first second = permutedShape second first := rfl

/-- Two permutations of the axes compose to one. -/
theorem composeAxes_perm (permutes : first.Perm (List.range rank))
    (permutesToo : second.Perm (List.range rank)) :
    (composeAxes first second).Perm (List.range rank) := by
  rw [composeAxes_eq]
  exact (permutedShape_perm ((length_of_perm permutes).symm ▸ permutesToo)).trans permutes

/-- The composite looks up in the second permutation and then in the first. -/
theorem composeAxes_getElem? (permutes : first.Perm (List.range rank))
    (permutesToo : second.Perm (List.range rank)) {place : Nat} :
    (composeAxes first second)[place]? = second[place]?.bind fun axis => first[axis]? := by
  rw [composeAxes, List.getElem?_map]
  cases found : second[place]? with
  | none => rfl
  | some axis =>
    have within : axis < first.length := by
      rw [length_of_perm permutes, ← mem_iff_of_perm permutesToo]
      exact List.mem_of_getElem? found
    simp [List.getD_eq_getElem?_getD, List.getElem?_eq_getElem within]

/-- What is carried twice is carried by the composition. Each axis goes where the
second permutation takes the place that the first gave it. -/
theorem CarriedFrom.trans {origin between index : Index} (permutes : first.Perm (List.range rank))
    (permutesToo : second.Perm (List.range rank)) (carried : CarriedFrom first origin between)
    (carriedToo : CarriedFrom second between index) :
    CarriedFrom (composeAxes first second) origin index := by
  intro place axis found
  rw [composeAxes_getElem? permutes permutesToo] at found
  obtain ⟨middle, listed, listedFirst⟩ := Option.bind_eq_some_iff.mp found
  exact (carried middle axis listedFirst).trans (carriedToo place middle listed)

/-- An index is read through both permutations as through their composition. No
array has to be formed in between. -/
theorem sourceIndex_sourceIndex {index : Index} (permutes : first.Perm (List.range rank))
    (permutesToo : second.Perm (List.range rank)) (sized : index.length = rank) :
    sourceIndex first (sourceIndex second index) = sourceIndex (composeAxes first second) index := by
  have carried : CarriedFrom first _ (sourceIndex second index) :=
    carriedFrom_sourceIndex permutes (length_sourceIndex.trans (length_of_perm permutesToo))
  exact (carried.trans permutes permutesToo (carriedFrom_sourceIndex permutesToo sized)).eq_sourceIndex
    (composeAxes_perm permutes permutesToo) sized
    (length_sourceIndex.trans (length_of_perm permutes))

/-- Permuting a shape twice is permuting it by the composite. -/
theorem permutedShape_permutedShape {shape : Shape}
    (permutes : first.Perm (List.range shape.length))
    (permutesToo : second.Perm (List.range shape.length)) :
    permutedShape second (permutedShape first shape) =
      permutedShape (composeAxes first second) shape := by
  unfold permutedShape composeAxes
  rw [List.map_map]
  refine List.map_congr_left fun axis listed => ?_
  have within : axis < first.length := by
    rwa [length_of_perm permutes, ← mem_iff_of_perm permutesToo]
  simp [List.getD_eq_getElem?_getD, List.getElem?_eq_getElem within]

/-- The identity permutation reads an array where it is asked. -/
theorem sourceIndex_range {index : Index} (sized : index.length = rank) :
    sourceIndex (List.range rank) index = index := by
  have still : CarriedFrom (List.range rank) index index := by
    intro place axis found
    obtain ⟨-, rfl⟩ := List.getElem?_eq_some_iff.mp found
    simp
  exact (still.eq_sourceIndex (.refl _) sized sized).symm

/-- The inverse has at each axis the place where the axis went. It undoes the
permutation from either side. -/
theorem inverseAxes_getElem? (permutes : axes.Perm (List.range rank)) {place axis : Nat}
    (found : axes[place]? = some axis) : (inverseAxes axes)[axis]? = some place := by
  obtain ⟨sized, inside, distinct⟩ := perm_range_iff.mp permutes
  obtain ⟨within, rfl⟩ := List.getElem?_eq_some_iff.mp found
  have bounded : axes[place] < axes.length := sized ▸ inside _ (List.getElem_mem within)
  simp [inverseAxes, bounded, distinct.idxOf_getElem]

/-- The inverse of a permutation of the axes is one. -/
theorem inverseAxes_perm (permutes : axes.Perm (List.range rank)) :
    (inverseAxes axes).Perm (List.range rank) := by
  have sized := length_of_perm permutes
  have known {axis : Nat} (below : axis ∈ List.range axes.length) : axis ∈ axes :=
    permutes.mem_iff.mpr (sized ▸ below)
  refine perm_range_iff.mpr ⟨by simp [inverseAxes, sized], fun place listed => ?_, ?_⟩
  · obtain ⟨axis, below, rfl⟩ := List.mem_map.mp listed
    exact sized ▸ List.idxOf_lt_length_of_mem (known below)
  · refine List.nodup_range.map_on fun axis below other _ same => ?_
    exact (List.idxOf_inj (known below)).mp same

/-- Permuting by the inverse afterwards gives the axes back in order. -/
theorem composeAxes_inverseAxes (permutes : axes.Perm (List.range rank)) :
    composeAxes axes (inverseAxes axes) = List.range rank := by
  have sized := length_of_perm permutes
  refine List.ext_getElem? fun axis => ?_
  rw [composeAxes_getElem? permutes (inverseAxes_perm permutes)]
  by_cases below : axis < rank
  · obtain ⟨place, found⟩ := exists_place_of_perm permutes below
    rw [inverseAxes_getElem? permutes found, Option.bind_some, found, List.getElem?_range below]
  · rw [List.getElem?_eq_none (by simpa [inverseAxes, sized] using below),
      List.getElem?_eq_none (by simpa using below)]
    rfl

end Compose

section Permute

variable [Inhabited α] {tensor next : Tensor α} {axes : List Nat}

/-- A tensor can be permuted by a permutation of its axes. The size of the array is
no obstacle, as it is that of the tensor. -/
theorem permute_eq_ok_iff : tensor.permute axes = .ok next ↔
    axes.Perm (List.range tensor.rank) ∧
      next = tabulate (permutedShape axes tensor.shape) fun index =>
        tensor.get (sourceIndex axes index) := by
  rw [perm_range_iff, permute]
  by_cases sized : axes.length = tensor.rank
  · by_cases named : (∀ axis ∈ axes, axis < tensor.rank) ∧ axes.Nodup
    · rw [if_neg (not_not.mpr sized), if_pos named, Except.ok.injEq, eq_comm]
      exact (and_iff_right ⟨sized, named⟩).symm
    · rw [if_neg (not_not.mpr sized), if_neg named]
      exact iff_of_false nofun fun ⟨⟨_, listed⟩, _⟩ => named listed
  · rw [if_pos sized]
    exact iff_of_false nofun fun ⟨⟨same, _⟩, _⟩ => sized same

/-- A permuted tensor holds at each index what the tensor holds at the index it is
carried from. That index is the only one with this property. -/
theorem get_of_permute (permuted : tensor.permute axes = .ok next) {index : Index}
    (inside : index ∈ next.shape.indices) :
    ∃ origin, origin ∈ tensor.shape.indices ∧ CarriedFrom axes origin index ∧
      next.get index = tensor.get origin ∧
      ∀ other, other ∈ tensor.shape.indices → CarriedFrom axes other index → other = origin := by
  obtain ⟨permutes, rfl⟩ := permute_eq_ok_iff.mp permuted
  have inside : index ∈ (permutedShape axes tensor.shape).indices := inside
  have sized : index.length = tensor.rank := length_of_mem_permutedShape permutes inside
  refine ⟨sourceIndex axes index, sourceIndex_mem permutes inside,
    carriedFrom_sourceIndex permutes sized, get_tabulate inside, fun other listed carried => ?_⟩
  exact carried.eq_sourceIndex permutes sized (Shape.length_of_mem_indices listed)

/-- So a permuted tensor holds the elements of the tensor, in another order. None is
lost and none is read twice. -/
theorem perm_of_permute (permuted : tensor.permute axes = .ok next) :
    next.data.Perm tensor.data := by
  obtain ⟨permutes, rfl⟩ := permute_eq_ok_iff.mp permuted
  have read : (tabulate tensor.shape tensor.get).data = tensor.data := by rw [tabulate_get]
  have moved := (sourceIndex_perm permutes).map tensor.get
  rw [List.map_map, ← elements_eq tensor.shape] at moved
  rw [← read]
  simpa [tabulate, elements_eq, Function.comp_def] using moved

/-- What is made of each element by itself can be made before. Only places are
moved. -/
theorem permute_map [Inhabited β] (function : α → β) (permuted : tensor.permute axes = .ok next) :
    (tensor.map function).permute axes = .ok (next.map function) := by
  obtain ⟨permutes, rfl⟩ := permute_eq_ok_iff.mp permuted
  refine permute_eq_ok_iff.mpr ⟨permutes, ?_⟩
  rw [map_tabulate]
  exact tabulate_congr fun index inside => (get_map (sourceIndex_mem permutes inside)).symm

/-- Permuting twice is permuting by the composition. The elements agree index by
index. -/
theorem permute_permute {last : Tensor α} {first second : List Nat}
    (permuted : tensor.permute first = .ok next) (permutedToo : next.permute second = .ok last) :
    tensor.permute (composeAxes first second) = .ok last := by
  rw [permute_eq_ok_iff] at permuted permutedToo ⊢
  obtain ⟨permutes, rfl⟩ := permuted
  obtain ⟨permutesToo, rfl⟩ := permutedToo
  have permutesNext : second.Perm (List.range (permutedShape first tensor.shape).length) :=
    permutesToo
  have ranked : (permutedShape first tensor.shape).length = tensor.shape.length :=
    (permutedShape_perm permutes).length_eq
  have permutesSame : second.Perm (List.range tensor.shape.length) := ranked ▸ permutesNext
  refine ⟨composeAxes_perm permutes permutesSame, ?_⟩
  show tabulate (permutedShape second (permutedShape first tensor.shape)) _ = _
  rw [← permutedShape_permutedShape permutes permutesSame]
  refine tabulate_congr fun index inside => ?_
  have sized := (length_of_mem_permutedShape permutesNext inside).trans ranked
  rw [get_tabulate (sourceIndex_mem permutesNext inside),
    sourceIndex_sourceIndex permutes permutesSame sized]

/-- Axes in their own order leave a tensor as it is. Shape and elements are the
same. -/
theorem permute_range (tensor : Tensor α) :
    tensor.permute (List.range tensor.rank) = .ok tensor := by
  rw [permute_eq_ok_iff]
  refine ⟨.refl _, ?_⟩
  show tensor = tabulate (permutedShape (List.range tensor.shape.length) tensor.shape) fun index =>
    tensor.get (sourceIndex (List.range tensor.shape.length) index)
  conv_lhs => rw [← tabulate_get tensor]
  rw [permutedShape_range]
  refine tabulate_congr fun index inside => ?_
  rw [sourceIndex_range (Shape.length_of_mem_indices inside)]

end Permute

end Tensor

end RangeFold
