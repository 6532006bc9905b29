import RangeFold.Tensor.Basic
import Mathlib.Data.List.Forall2
import Mathlib.Data.List.Nodup

/-!
# Indices and elements

The indices of a shape are the lists that have a position in each dimension. They are listed once
each, at their offsets, which is the order in which elements are stored. So a tensor holds at each
index of its shape what it was tabulated with there, and is tabulated with what it holds.
-/

namespace RangeFold

variable {α β γ : Type}

namespace Shape

/-- The volume splits off the leading dimension. -/
@[simp] theorem volume_cons (dim : Nat) (shape : Shape) :
    volume (dim :: shape) = dim * volume shape := rfl

/-- Blocks of one size stand in a row. -/
theorem getElem?_flatMap {items : List β} {expand : β → List γ} {size : Nat}
    (each : ∀ item, (expand item).length = size) {place offset : Nat} (within : offset < size) :
    (items.flatMap expand)[place * size + offset]? =
      (items[place]?).bind fun item => (expand item)[offset]? := by
  induction items generalizing place with
  | nil => simp
  | cons item rest inductionHypothesis =>
    rw [List.flatMap_cons]
    cases place with
    | zero =>
      rw [Nat.zero_mul, Nat.zero_add, List.getElem?_append_left (by rw [each]; exact within)]
      rfl
    | succ place =>
      have behind :
          (place + 1) * size + offset = (expand item).length + (place * size + offset) := by
        rw [each, Nat.succ_mul]
        omega
      rw [behind, List.getElem?_append_right (Nat.le_add_right _ _), Nat.add_sub_cancel_left,
        inductionHypothesis, List.getElem?_cons_succ]

/-- An index has a position in each dimension. -/
theorem mem_indices_iff {shape : Shape} {index : Index} :
    index ∈ shape.indices ↔ List.Forall₂ (· < ·) index shape := by
  induction shape generalizing index with
  | nil => simp [indices]
  | cons dim rest inductionHypothesis =>
    simp only [indices, List.mem_flatMap, List.mem_range, List.mem_map, inductionHypothesis]
    constructor
    · rintro ⟨position, inside, others, valid, rfl⟩
      exact .cons inside valid
    · intro valid
      cases valid with
      | cons inside others => exact ⟨_, inside, _, others, rfl⟩

/-- Indices are listed at their offsets. -/
theorem getElem?_offset {shape : Shape} {index : Index} (inside : index ∈ shape.indices) :
    shape.indices[shape.offset index]? = some index := by
  induction mem_indices_iff.mp inside with
  | nil => rfl
  | @cons position dim rest shape within valid inductionHypothesis =>
    have found := inductionHypothesis (mem_indices_iff.mpr valid)
    have bounded : offset shape rest < volume shape := by
      rw [← indices_length]
      exact (List.getElem?_eq_some_iff.mp found).1
    show ((List.range dim).flatMap fun position => (indices shape).map (position :: ·))[
      position * volume shape + offset shape rest]? = _
    rw [getElem?_flatMap (fun _ => (List.length_map _).trans (indices_length shape)) bounded,
      List.getElem?_range within, Option.bind_some, List.getElem?_map, found]
    rfl

/-- An index inside the shape has its place inside the list of elements. -/
theorem offset_lt_volume {shape : Shape} {index : Index} (inside : index ∈ shape.indices) :
    shape.offset index < shape.volume := by
  rw [← shape.indices_length]
  exact (List.getElem?_eq_some_iff.mp (getElem?_offset inside)).1

/-- An index inside a shape has as many entries as the shape. -/
theorem length_of_mem_indices {shape : Shape} {index : Index} (inside : index ∈ shape.indices) :
    index.length = shape.length := (mem_indices_iff.mp inside).length_eq

/-- An index has as many positions as there are dimensions, each of them below its dimension. -/
theorem mem_indices_iff_lt {shape : Shape} {index : Index} : index ∈ shape.indices ↔
    index.length = shape.length ∧ ∀ (axis position dim : Nat), index[axis]? = some position →
      shape[axis]? = some dim → position < dim := by
  rw [mem_indices_iff, List.forall₂_iff_get]
  refine and_congr_right fun sized => ⟨fun below axis position dim placed found => ?_,
    fun below axis inIndex inShape => ?_⟩
  · obtain ⟨inIndex, rfl⟩ := List.getElem?_eq_some_iff.mp placed
    obtain ⟨inShape, rfl⟩ := List.getElem?_eq_some_iff.mp found
    exact below axis inIndex inShape
  · exact below axis _ _ (List.getElem?_eq_getElem inIndex) (List.getElem?_eq_getElem inShape)

/-- No index is listed twice. -/
theorem indices_nodup (shape : Shape) : shape.indices.Nodup := by
  induction shape with
  | nil => exact List.nodup_singleton _
  | cons dim rest inductionHypothesis =>
    rw [indices, List.nodup_flatMap]
    refine ⟨fun position _ => inductionHypothesis.map (List.cons_injective), ?_⟩
    refine List.nodup_range.imp fun apart => ?_
    rw [Function.onFun_apply, List.disjoint_left]
    rintro index firstListed secondListed
    obtain ⟨_, -, rfl⟩ := List.mem_map.mp firstListed
    obtain ⟨_, -, same⟩ := List.mem_map.mp secondListed
    exact apart (List.cons.inj same).1.symm

/-- The index at a place has that place for its offset. -/
theorem offset_of_getElem? {shape : Shape} {index : Index} {place : Nat}
    (listed : shape.indices[place]? = some index) : shape.offset index = place := by
  have again := getElem?_offset (List.mem_of_getElem? listed)
  obtain ⟨within, found⟩ := List.getElem?_eq_some_iff.mp listed
  obtain ⟨withinToo, foundToo⟩ := List.getElem?_eq_some_iff.mp again
  exact (List.Nodup.getElem_inj_iff shape.indices_nodup).mp (foundToo.trans found.symm)

end Shape

namespace Tensor

/-- Tensors tabulated with the same elements over one shape are the same. -/
theorem tabulate_congr {shape : Shape} {first second : Index → α}
    (same : ∀ index ∈ shape.indices, first index = second index) :
    tabulate shape first = tabulate shape second := by
  unfold tabulate
  congr 1
  rw [elements_eq, elements_eq]
  exact List.map_congr_left same

/-- Mapping a tabulated array is tabulating the mapped elements. -/
theorem map_tabulate {shape : Shape} {element : Index → α} (function : α → β) :
    (tabulate shape element).map function = tabulate shape fun index => function (element index) := by
  simp [map, tabulate, elements_eq]

variable [Inhabited α] [Inhabited β] {target : Shape} {index : Index}

/-- A tensor holds what it was tabulated with. -/
theorem get_tabulate {element : Index → α} (inside : index ∈ target.indices) :
    (tabulate target element).get index = element index := by
  simp [get, tabulate, elements_eq, Shape.getElem?_offset inside]

/-- An element of a mapped array is the mapped element, inside the shape. Outside it
both sides are defaults that need not agree. -/
theorem get_map {function : α → β} {tensor : Tensor α} (inside : index ∈ tensor.shape.indices) :
    (tensor.map function).get index = function (tensor.get index) := by
  have stored : tensor.shape.offset index < tensor.data.length := by
    rw [tensor.size_eq]
    exact Shape.offset_lt_volume inside
  simp [get, map, List.getElem?_eq_getElem stored]

/-- A tensor is tabulated with what it holds. -/
theorem tabulate_get (tensor : Tensor α) : tabulate tensor.shape tensor.get = tensor := by
  have held : elements tensor.shape tensor.get = tensor.data := by
    rw [elements_eq]
    refine List.ext_getElem? fun place => ?_
    rw [List.getElem?_map]
    cases listed : tensor.shape.indices[place]? with
    | none =>
      rw [List.getElem?_eq_none_iff, Shape.indices_length, ← tensor.size_eq] at listed
      rw [List.getElem?_eq_none listed]
      rfl
    | some index =>
      have within : place < tensor.data.length := by
        rw [tensor.size_eq, ← Shape.indices_length]
        exact (List.getElem?_eq_some_iff.mp listed).1
      simp [get, Shape.offset_of_getElem? listed, List.getElem?_eq_getElem within]
  unfold tabulate
  simp only [held]

/-- What is made of each element by itself is tabulated so. -/
theorem tabulate_map (function : α → β) (tensor : Tensor α) :
    tabulate tensor.shape (fun index => function (tensor.get index)) = tensor.map function := by
  rw [← tabulate_get (tensor.map function)]
  exact tabulate_congr fun index inside => (get_map inside).symm

end Tensor

end RangeFold
