import RangeFold.Tensor.Axis
import Mathlib.Data.List.Nodup

/-!
# Where axes stand

An axis within a rank stands at one position of it, which it names from the front or from the back.
Several axes have positions if each of them does.
-/

namespace RangeFold

variable {axis : Int} {axes : List Int} {rank position : Nat} {positions : List Nat}

/-- An axis stands at the position that it names from the front or from the back.
Its sign tells which of the two it is. -/
theorem axisPosition_eq_some_iff : axisPosition axis rank = some position ↔
    position < rank ∧ (axis = position ∨ axis + rank = position) := by
  unfold axisPosition
  dsimp only
  split <;> split <;> simp only [reduceCtorEq, Option.some.injEq, false_iff] <;> omega

/-- An axis outside the rank stands nowhere. The rank itself is already outside. -/
theorem axisPosition_eq_none_iff :
    axisPosition axis rank = none ↔ axis < -(rank : Int) ∨ (rank : Int) ≤ axis := by
  unfold axisPosition
  dsimp only
  split <;> split <;> simp only [reduceCtorEq, true_iff, false_iff] <;> omega

/-- The axes are all read if each is, and the positions stand in the order of the
axes. -/
theorem axisPositions_eq_some_iff : axisPositions axes rank = some positions ↔
    axes.map (fun axis => axisPosition axis rank) = positions.map some := by
  unfold axisPositions
  induction axes generalizing positions with
  | nil => cases positions <;> simp
  | cons axis rest inductionHypothesis =>
    rw [List.mapM_cons]
    cases positions with
    | nil => simp [Option.bind_eq_some_iff]
    | cons position positions =>
      simp [Option.bind_eq_some_iff, inductionHypothesis]

section Placed

variable (placed : axisPositions axes rank = some positions)
include placed

/-- Every axis gives one position. -/
theorem length_of_axisPositions : positions.length = axes.length := by
  rw [axisPositions_eq_some_iff] at placed
  simpa using (congrArg List.length placed).symm

/-- Each axis has its position among them. No axis is dropped on the way. -/
theorem exists_of_axisPositions (listed : axis ∈ axes) :
    ∃ position ∈ positions, axisPosition axis rank = some position := by
  rw [axisPositions_eq_some_iff] at placed
  have known : axisPosition axis rank ∈ positions.map some := by
    rw [← placed]
    exact List.mem_map_of_mem listed
  obtain ⟨position, taken, found⟩ := List.mem_map.mp known
  exact ⟨position, taken, found.symm⟩

/-- The positions read are those of the given axes. -/
theorem mem_axisPositions_iff :
    position ∈ positions ↔ ∃ axis ∈ axes, axisPosition axis rank = some position := by
  rw [axisPositions_eq_some_iff] at placed
  have same : some position ∈ axes.map (fun axis => axisPosition axis rank) ↔
      some position ∈ positions.map some := by rw [placed]
  simpa using same.symm

/-- A position that was read lies inside the rank. Negative axes have been counted
from the end by then. -/
theorem lt_of_mem_axisPositions (listed : position ∈ positions) : position < rank := by
  obtain ⟨axis, -, found⟩ := (mem_axisPositions_iff placed).mp listed
  rw [axisPosition_eq_some_iff] at found
  exact found.1

/-- No position is taken twice exactly if no two axes stand at one. The two may be
written differently, one from the front and one from the back. -/
theorem nodup_axisPositions_iff : positions.Nodup ↔ ∀ axis other, [axis, other].Sublist axes →
    axisPosition axis rank ≠ axisPosition other rank := by
  rw [axisPositions_eq_some_iff] at placed
  have apart : positions.Nodup ↔
      axes.Pairwise fun axis other => axisPosition axis rank ≠ axisPosition other rank := by
    rw [← List.pairwise_map (R := (· ≠ ·)), placed]
    exact (List.nodup_map_iff fun _ _ => Option.some.inj).symm
  rw [apart, List.pairwise_iff_forall_sublist]

end Placed

/-- Axes have positions exactly if all of them are within the rank. Repetitions are
not looked at yet. -/
theorem exists_axisPositions_iff : (∃ positions, axisPositions axes rank = some positions) ↔
    ∀ axis ∈ axes, -(rank : Int) ≤ axis ∧ axis < rank := by
  have within (axis : Int) :
      axisPosition axis rank ≠ none ↔ -(rank : Int) ≤ axis ∧ axis < rank := by
    rw [Ne, axisPosition_eq_none_iff]
    omega
  simp only [← within]
  constructor
  · rintro ⟨positions, placed⟩ axis listed
    obtain ⟨position, -, found⟩ := exists_of_axisPositions placed listed
    rw [found]
    exact Option.some_ne_none position
  · intro placed
    refine ⟨axes.map fun axis => (axisPosition axis rank).getD 0, axisPositions_eq_some_iff.mpr ?_⟩
    rw [List.map_map]
    refine List.map_congr_left fun axis listed => ?_
    obtain ⟨position, found⟩ := Option.ne_none_iff_exists'.mp (placed axis listed)
    simp [found]

/-- Axes have positions of their own exactly if all of them are within the rank and no two stand at one
position. -/
theorem exists_distinct_axisPositions_iff :
    (∃ positions, axisPositions axes rank = some positions ∧ positions.Nodup) ↔
      (∀ axis ∈ axes, -(rank : Int) ≤ axis ∧ axis < rank) ∧ ∀ axis other,
        [axis, other].Sublist axes → axisPosition axis rank ≠ axisPosition other rank := by
  constructor
  · rintro ⟨positions, placed, distinct⟩
    exact ⟨exists_axisPositions_iff.mp ⟨positions, placed⟩,
      (nodup_axisPositions_iff placed).mp distinct⟩
  · rintro ⟨within, apart⟩
    obtain ⟨positions, placed⟩ := exists_axisPositions_iff.mpr within
    exact ⟨positions, placed, (nodup_axisPositions_iff placed).mpr apart⟩

end RangeFold
