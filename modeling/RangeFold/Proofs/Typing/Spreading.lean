import RangeFold.Graph.Typing
import RangeFold.Proofs.Tensor.Axis
import RangeFold.Proofs.Tensor.Indexing
import Mathlib.Data.List.Sort

/-!
# Dimensions between inserted ones

Dimensions are spread over the positions of a rank that are not taken, in their order, and those that
are taken get dimensions of 1. If as many positions are free as there are dimensions, nothing is lost and
nothing is made up: the dimensions at the free positions are the given ones. Taking them out again is how
a shape is squeezed.
-/

namespace RangeFold.Typing

variable {positions : List Nat} {dims shape : Shape}

/-- The insertion used by the rule is the ordered insertion of the library. -/
theorem insertSorted_eq (value : Nat) (values : List Nat) :
    insertSorted value values = values.orderedInsert (· ≤ ·) value := by
  induction values with
  | nil => rfl
  | cons head rest inductionHypothesis =>
    rw [insertSorted, List.orderedInsert, inductionHypothesis]

/-- The sorting used by the rule is insertion sort, so the library's facts about it
apply. -/
theorem sorted_eq (values : List Nat) : sorted values = values.insertionSort (· ≤ ·) := by
  induction values with
  | nil => rfl
  | cons value rest inductionHypothesis =>
    rw [List.insertionSort_cons, ← inductionHypothesis, ← insertSorted_eq]
    rfl

/-- Sorting only rearranges. -/
theorem sorted_perm (values : List Nat) : (sorted values).Perm values := by
  rw [sorted_eq]
  exact List.perm_insertionSort _ values

/-- Equal numbers of an increasing list are neighbours. Comparing neighbours is
enough for this reason. -/
theorem hasRepeat_eq_false_iff {values : List Nat} (increasing : values.Pairwise (· ≤ ·)) :
    hasRepeat values = false ↔ values.Nodup := by
  induction values with
  | nil => simp [hasRepeat]
  | cons first rest inductionHypothesis =>
    obtain ⟨least, behind⟩ := List.pairwise_cons.mp increasing
    cases rest with
    | nil => simp [hasRepeat]
    | cons second rest =>
      obtain ⟨leastToo, -⟩ := List.pairwise_cons.mp behind
      have apart : first ≠ second ↔ first ∉ second :: rest := by
        constructor
        · intro differ listed
          obtain rfl | later := List.mem_cons.mp listed
          · exact differ rfl
          · have low := least second (List.mem_cons_self ..)
            have high := leastToo first later
            omega
        · rintro absent rfl
          exact absent (List.mem_cons_self ..)
      rw [List.nodup_cons, ← inductionHypothesis behind, ← apart, hasRepeat, Bool.or_eq_false_iff,
        decide_eq_false_iff_not]

/-- Looking at neighbours of the sorted positions finds a repetition exactly if
there is one. -/
theorem hasRepeat_sorted_iff (values : List Nat) :
    hasRepeat (sorted values) = true ↔ ¬ values.Nodup := by
  have increasing : (sorted values).Pairwise (· ≤ ·) := by
    rw [sorted_eq]
    exact List.pairwise_insertionSort _ values
  rw [← (sorted_perm values).nodup_iff, ← hasRepeat_eq_false_iff increasing, Bool.not_eq_false]

/-- The positions below a rank that are not taken. -/
def freePositions (positions : List Nat) (rank : Nat) : List Nat :=
  (List.range rank).filter (· ∉ positions)

/-- Distinct positions inside the rank leave the rest of it free. -/
theorem length_freePositions {rank : Nat} (distinct : positions.Nodup)
    (inside : ∀ position ∈ positions, position < rank) :
    (freePositions positions rank).length + positions.length = rank := by
  have taken : ((List.range rank).filter fun position => !decide (position ∉ positions)).Perm
      positions := by
    refine (List.perm_ext_iff_of_nodup (List.nodup_range.filter _) distinct).mpr fun position => ?_
    simpa using inside position
  have split := List.length_eq_length_filter_add (l := List.range rank)
    fun position => decide (position ∉ positions)
  rw [List.length_range, taken.length_eq] at split
  exact split.symm

/-- The dimensions at free positions are those that are left when the taken positions are left out. -/
theorem map_freePositions : (freePositions positions shape.length).map (shape[·]?) =
    (dimsWithout shape positions).map some := by
  have numbered : List.range shape.length = shape.zipIdx.map Prod.snd := by
    rw [List.zipIdx_map_snd, List.range_eq_range']
  have free : ((fun position => decide (position ∉ positions)) ∘ Prod.snd : Nat × Nat → Bool) =
      fun item => !positions.contains item.2 := by
    funext item
    simp
  rw [freePositions, numbered, List.filter_map, dimsWithout, List.map_map, List.map_map, free]
  refine List.map_congr_left fun item listed => ?_
  exact List.mem_zipIdx_iff_getElem?.mp (List.mem_filter.mp listed).1

/-- Leaving out positions whose dimension is 1 keeps the number of elements. They
are factors of 1. -/
theorem volume_dimsWithout {shape : Shape} {positions : List Nat}
    (ones : ∀ position ∈ positions, shape.getD position 1 = 1) :
    Shape.volume (dimsWithout shape positions) = Shape.volume shape := by
  have shifted (dims : Shape) (start : Nat)
      (ones : ∀ position, start + position ∈ positions → dims.getD position 1 = 1) :
      Shape.volume (((dims.zipIdx start).filter fun item =>
        !positions.contains item.2).map Prod.fst) = Shape.volume dims := by
    induction dims generalizing start with
    | nil => rfl
    | cons dim rest inductionHypothesis =>
      have others := inductionHypothesis (start + 1) fun position listed => by
        have one := ones (position + 1) (by rwa [Nat.add_comm position, ← Nat.add_assoc])
        simpa using one
      rw [List.zipIdx_cons]
      by_cases listed : start ∈ positions
      · have one : dim = 1 := ones 0 listed
        simpa [listed, one] using others
      · simpa [listed] using congrArg (dim * ·) others
  exact shifted shape 0 fun position listed => ones position (by simpa using listed)

section Spread

variable {start count : Nat}

/-- The result has the rank that was asked for, however many dimensions there were
to spread. -/
theorem length_spreadDims : (spreadDims positions start count dims).length = count := by
  fun_induction spreadDims positions start count dims <;> simp_all

/-- The order in which positions are taken does not matter. Only membership is asked
of the list. -/
theorem spreadDims_sorted :
    spreadDims (sorted positions) start count dims = spreadDims positions start count dims := by
  have alike (position : Nat) : (sorted positions).contains position = positions.contains position := by
    rw [Bool.eq_iff_iff]
    simp [(sorted_perm positions).mem_iff]
  fun_induction spreadDims positions start count dims <;> simp_all [spreadDims]

/-- A taken position has a dimension of 1. What is spread does not reach it. -/
theorem spreadDims_getElem? {place : Nat} (within : place < count)
    (taken : start + place ∈ positions) :
    (spreadDims positions start count dims)[place]? = some 1 := by
  have behind {start next : Nat} (later : start + (next + 1) ∈ positions) :
      start + 1 + next ∈ positions := by
    rwa [Nat.add_assoc, Nat.add_comm 1]
  fun_induction spreadDims positions start count dims generalizing place with
  | case1 => cases within
  | case2 start count dims listed inductionHypothesis =>
    cases place with
    | zero => rfl
    | succ place => exact inductionHypothesis (Nat.lt_of_succ_lt_succ within) (behind taken)
  | case3 start count free inductionHypothesis =>
    cases place with
    | zero => rfl
    | succ place => exact inductionHypothesis (Nat.lt_of_succ_lt_succ within) (behind taken)
  | case4 start count free dim rest inductionHypothesis =>
    cases place with
    | zero => exact absurd (List.contains_iff_mem.mpr taken) free
    | succ place => exact inductionHypothesis (Nat.lt_of_succ_lt_succ within) (behind taken)

/-- Left to themselves, the dimensions at free positions are those that were spread.
There have to be as many of them as free positions. -/
theorem filter_spreadDims
    (room : dims.length = ((List.range' start count).filter (· ∉ positions)).length) :
    (((spreadDims positions start count dims).zipIdx start).filter fun item =>
      !positions.contains item.2).map Prod.fst = dims := by
  fun_induction spreadDims positions start count dims with
  | case1 => exact (List.eq_nil_of_length_eq_zero (by simpa using room)).symm
  | case2 start count dims listed inductionHypothesis =>
    rw [List.range'_succ] at room
    rw [List.zipIdx_cons, List.filter_cons_of_neg (by simpa using listed)]
    exact inductionHypothesis (by simpa [List.contains_iff_mem.mp listed] using room)
  | case3 start count free inductionHypothesis =>
    rw [List.range'_succ, List.filter_cons_of_pos (by simpa using free)] at room
    cases room
  | case4 start count free dim rest inductionHypothesis =>
    rw [List.range'_succ, List.filter_cons_of_pos (by simpa using free)] at room
    rw [List.zipIdx_cons, List.filter_cons_of_pos (by simpa using free), List.map_cons,
      inductionHypothesis (Nat.succ.inj room)]

end Spread

section Room

variable {rank : Nat} (distinct : positions.Nodup)
  (inside : ∀ position ∈ positions, position < rank)
  (counted : dims.length + positions.length = rank)
include distinct inside counted

/-- Spreading over as many free positions as there are dimensions is undone by leaving out the taken
ones. -/
theorem dimsWithout_spreadDims :
    dimsWithout (spreadDims positions 0 rank dims) positions = dims := by
  have room := length_freePositions distinct inside
  rw [freePositions, List.range_eq_range'] at room
  exact filter_spreadDims (by omega)

/-- Then the dimensions at free positions are those that were spread, in their
order. Reading at the free positions inverts the spreading. -/
theorem map_freePositions_spreadDims :
    (freePositions positions rank).map ((spreadDims positions 0 rank dims)[·]?) = dims.map some := by
  have left : (freePositions positions (spreadDims positions 0 rank dims).length).map
      ((spreadDims positions 0 rank dims)[·]?) =
        (dimsWithout (spreadDims positions 0 rank dims) positions).map some := map_freePositions
  rwa [length_spreadDims, dimsWithout_spreadDims distinct inside counted] at left

/-- So it keeps the number of elements. Dimensions of 1 are added and nothing is
lost. -/
theorem volume_spreadDims :
    Shape.volume (spreadDims positions 0 rank dims) = Shape.volume dims := by
  have ones : ∀ position ∈ positions, (spreadDims positions 0 rank dims).getD position 1 = 1 := by
    intro position listed
    rw [List.getD_eq_getElem?_getD,
      spreadDims_getElem? (inside position listed) (by rwa [Nat.zero_add]), Option.getD_some]
  rw [← volume_dimsWithout ones, dimsWithout_spreadDims distinct inside counted]

end Room

end RangeFold.Typing
