import RangeFold.Proofs.Tensor.Permutation

/-!
# Reordered axes

The lists that are accepted as permutations of the axes are those that name each axis once. A tensor can
be permuted by each of them, and permuting it is an action: in their own order the axes stay, a second
permutation after a first one picks from the axes that the first one has put in order, and each
permutation has another one that undoes it.
-/

namespace RangeFold

variable {α : Type}

/-- A list of signed axes is accepted exactly if it is a rearrangement of the axes
of the rank. None is negative, none is missing and none is named twice. -/
theorem exists_permutationOf_iff {axes : List Int} {rank : Nat} :
    (∃ positions, permutationOf axes rank = .ok positions) ↔
      axes.Perm ((List.range rank).map Int.ofNat) := by
  simp only [permutationOf_eq_ok_iff]
  constructor
  · rintro ⟨positions, rfl, permutes⟩
    exact permutes.map Int.ofNat
  · intro permutes
    have unsigned : (axes.map Int.toNat).Perm (List.range rank) := by
      simpa [Function.comp_def] using permutes.map Int.toNat
    refine ⟨axes.map Int.toNat, ?_, unsigned⟩
    have same : axes.map (Int.ofNat ∘ Int.toNat) = axes.map id := by
      refine List.map_congr_left fun axis listed => ?_
      obtain ⟨position, -, rfl⟩ := List.mem_map.mp (permutes.mem_iff.mp listed)
      rfl
    rw [List.map_map, same, List.map_id]

namespace Tensor

variable [Inhabited α]

/-- A tensor can be permuted by every permutation of its axes. No size can stand in
the way. -/
theorem exists_permute {tensor : Tensor α} {axes : List Nat}
    (permutes : axes.Perm (List.range tensor.rank)) :
    ∃ next, tensor.permute axes = .ok next ∧ next.rank = tensor.rank := by
  simp only [permute_eq_ok_iff]
  exact ⟨_, ⟨permutes, rfl⟩, (permutedShape_perm permutes).length_eq⟩

/-- Permuting the axes of tensors. A list of signed axes is accepted exactly if it names each axis of the
rank once, and is then taken as it stands. A tensor can be permuted by each accepted list. In their own
order the axes stay. Permuting by a first list and then by a second one is permuting by the list that has
at each place the axis of the first list at the place that the second one names. The list that names at
each axis the place where the first one has it permutes back. -/
theorem permuting_exact (tensor : Tensor α) :
    (∀ (rank : Nat) (axes : List Int),
      ((∃ positions, permutationOf axes rank = .ok positions) ↔
        axes.Perm ((List.range rank).map Int.ofNat)) ∧
      ∀ positions, permutationOf axes rank = .ok positions → positions.map Int.ofNat = axes) ∧
    tensor.permute (List.range tensor.rank) = .ok tensor ∧
    ∀ (axes : List Int) (first : List Nat), permutationOf axes tensor.rank = .ok first →
      ∃ turned, tensor.permute first = .ok turned ∧
        (∀ (others : List Int) (second : List Nat),
          permutationOf others tensor.rank = .ok second →
          ∃ result, turned.permute second = .ok result ∧
            tensor.permute (second.map fun axis => first.getD axis 0) = .ok result) ∧
        (inverseAxes first).Perm (List.range tensor.rank) ∧
        (∀ (place axis : Nat), first[place]? = some axis →
          (inverseAxes first)[axis]? = some place) ∧
        turned.permute (inverseAxes first) = .ok tensor := by
  have taken (rank : Nat) (axes : List Int) (positions : List Nat)
      (accepted : permutationOf axes rank = .ok positions) : positions.map Int.ofNat = axes :=
    (permutationOf_eq_ok_iff.mp accepted).1.symm
  refine ⟨fun rank axes => ⟨exists_permutationOf_iff, taken rank axes⟩, permute_range tensor,
    fun axes first accepted => ?_⟩
  obtain ⟨-, permutes⟩ := permutationOf_eq_ok_iff.mp accepted
  obtain ⟨turned, permuted, ranked⟩ := exists_permute permutes
  have back := inverseAxes_perm permutes
  refine ⟨turned, permuted, fun others second acceptedToo => ?_, back,
    fun place axis found => inverseAxes_getElem? permutes found, ?_⟩
  · obtain ⟨-, permutesToo⟩ := permutationOf_eq_ok_iff.mp acceptedToo
    obtain ⟨result, permutedToo, -⟩ := exists_permute (ranked.symm ▸ permutesToo)
    exact ⟨result, permutedToo, permute_permute permuted permutedToo⟩
  · obtain ⟨result, permutedBack, -⟩ := exists_permute (ranked.symm ▸ back)
    have composed := permute_permute permuted permutedBack
    rw [composeAxes_inverseAxes permutes, permute_range] at composed
    rw [permutedBack, composed]

/-- Three axes of two, three and one position. -/
def brick : Tensor Rat := ⟨[2, 3, 1], [0, 1, 2, 3, 4, 5], rfl⟩

/-- Moving the last axis to the front and then swapping the first two is swapping the last two. Moving the
first axis to the end undoes the first step. -/
theorem brick_permuted : ∃ turned result, brick.permute [2, 0, 1] = .ok turned ∧
    turned.permute [1, 0, 2] = .ok result ∧ brick.permute [0, 2, 1] = .ok result ∧
    result.shape = [2, 1, 3] ∧ turned.permute [1, 2, 0] = .ok brick := by
  obtain ⟨-, -, acts⟩ := permuting_exact brick
  obtain ⟨turned, permuted, composes, -, -, back⟩ := acts [2, 0, 1] [2, 0, 1] (by decide)
  obtain ⟨result, permutedToo, composed⟩ := composes [1, 0, 2] [1, 0, 2] (by decide)
  obtain ⟨-, shape⟩ := permute_eq_ok_iff.mp composed
  exact ⟨turned, result, permuted, permutedToo, composed, by rw [shape]; rfl, back⟩

end Tensor

end RangeFold
