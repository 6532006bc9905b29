import RangeFold.Proofs.Tensor.Target

/-!
# Resolvable targets

A reshape target resolves exactly if its entries can be read, at most one dimension is left open, and the
elements of the input fill the stated dimensions evenly. What it resolves to is then the one shape of as
many elements that has the stated dimensions. A dimension is not left open beside an empty one, because
any size of it would do.
-/

namespace RangeFold

variable {input output other : Shape} {target : List Int}

/-- A target resolves for an input. -/
structure Resolvable (input : Shape) (target : List Int) : Prop where
  least : ∀ entry ∈ target, -1 ≤ entry
  single : target.count (-1) ≤ 1
  inRank : ∀ place : Nat, target[place]? = some 0 → place < input.length
  whole : -1 ∉ target → (statedDims input target).volume = input.volume
  divides : -1 ∈ target → (statedDims input target).volume ≠ 0 ∧
    (statedDims input target).volume ∣ input.volume

/-- A shape is one that a target asks for: it has the dimensions that the target states, copies and
leaves open, and the elements of the input fill it. -/
structure Follows (input : Shape) (target : List Int) (output : Shape) : Prop where
  rank : output.length = target.length
  kept : ∀ (place : Nat) (dim : Int), target[place]? = some dim → 0 < dim →
    output[place]? = some dim.toNat
  copied : ∀ place : Nat, target[place]? = some 0 → output[place]? = input[place]?
  volume : output.volume = input.volume

/-- Every entry can be read exactly if none is below -1 and zeros stand within the
rank of the input. -/
theorem forall_legible_iff : (∀ item ∈ target.zipIdx, Legible input item) ↔
    (∀ entry ∈ target, -1 ≤ entry) ∧
      ∀ place : Nat, target[place]? = some 0 → place < input.length := by
  constructor
  · intro legible
    refine ⟨fun entry listed => ?_, fun place stated => ?_⟩
    · obtain ⟨place, stated⟩ := List.mem_iff_getElem?.mp listed
      exact (legible (entry, place) (List.mem_zipIdx_iff_getElem?.mpr stated)).1
    · exact (legible (0, place) (List.mem_zipIdx_iff_getElem?.mpr stated)).2 rfl
  · rintro ⟨least, inRank⟩ ⟨entry, place⟩ listed
    have stated := List.mem_zipIdx_iff_getElem?.mp listed
    exact ⟨least entry (List.mem_of_getElem? stated), fun copied =>
      inRank place (by rw [← copied]; exact stated)⟩

/-- All entries of a resolvable target can be read. Sign and place of each are
right. -/
theorem Resolvable.legible (resolvable : Resolvable input target) :
    ∀ item ∈ target.zipIdx, Legible input item :=
  forall_legible_iff.mpr ⟨resolvable.least, resolvable.inRank⟩

/-- The dimensions of a target, with one for those that it leaves open. -/
def filledDims (input : Shape) (target : List Int) (dim : Nat) : Shape :=
  (target.zipIdx.map (entryDim input)).map (·.getD dim)

/-- The filled dimensions, place by place: the stated or copied one, or what is
filled in. -/
theorem getElem?_filledDims {dim place : Nat} : (filledDims input target dim)[place]? =
    target[place]?.map fun entry => (entryDim input (entry, place)).getD dim := by
  simp [filledDims, Function.comp_def]

/-- Filling one open dimension multiplies. The two cases that occur follow from it. -/
theorem volume_filledDims (legible : ∀ item ∈ target.zipIdx, Legible input item) (dim : Nat) :
    (filledDims input target dim).volume =
      (statedDims input target).volume * dim ^ target.count (-1) := by
  rw [filledDims, Shape.volume_map_getD, reduceOption_entryDim, count_none_entryDim legible]

/-- With one entry of -1, the volume is that of the stated dimensions times what is
filled in. So there is at most one way to match the input unless the stated ones
have no elements. -/
theorem volume_filledDims_open (legible : ∀ item ∈ target.zipIdx, Legible input item)
    (single : target.count (-1) ≤ 1) (inferred : -1 ∈ target) (dim : Nat) :
    (filledDims input target dim).volume = (statedDims input target).volume * dim := by
  have once : target.count (-1) = 1 := Nat.le_antisymm single (List.count_pos_iff.mpr inferred)
  rw [volume_filledDims legible, once, Nat.pow_one]

/-- Without an entry of -1, the volume is that of the stated dimensions. -/
theorem volume_filledDims_whole (legible : ∀ item ∈ target.zipIdx, Legible input item)
    (stated : -1 ∉ target) (dim : Nat) :
    (filledDims input target dim).volume = (statedDims input target).volume := by
  rw [volume_filledDims legible, List.count_eq_zero.mpr stated, Nat.pow_zero, Nat.mul_one]

/-- A target resolves to its dimensions, with the open one filled. The conditions
are those under which nothing is complained about. -/
theorem resolveReshape_eq_ok_iff_resolvable : resolveReshape input target = .ok output ↔
    Resolvable input target ∧ output = filledDims input target (openDim input target) := by
  rw [resolveReshape_eq_ok_iff]
  constructor
  · rintro ⟨legible, single, divides, rfl, same⟩
    obtain ⟨least, inRank⟩ := forall_legible_iff.mp legible
    exact ⟨⟨least, single, inRank, fun stated =>
      (volume_filledDims_whole legible stated _).symm.trans same, divides⟩, rfl⟩
  · rintro ⟨resolvable, rfl⟩
    have legible := resolvable.legible
    obtain ⟨-, single, -, whole, divides⟩ := resolvable
    refine ⟨legible, single, divides, rfl, ?_⟩
    by_cases inferred : -1 ∈ target
    · rw [volume_filledDims_open legible single inferred]
      exact Nat.mul_div_cancel' (divides inferred).2
    · rw [volume_filledDims_whole legible inferred, whole inferred]

/-- Only one shape is what a resolvable target asks for. The stated dimensions leave
one choice for the open one. -/
theorem Follows.eq_filledDims (follows : Follows input target other)
    (resolvable : Resolvable input target) :
    other = filledDims input target (openDim input target) := by
  have legible := resolvable.legible
  obtain ⟨least, single, -, -, divides⟩ := resolvable
  have agree (place dim : Nat)
      (stated : (target.zipIdx.map (entryDim input))[place]? = some (some dim)) :
      other[place]? = some dim := by
    obtain ⟨entry, found, reads⟩ : ∃ entry, target[place]? = some entry ∧
        entryDim input (entry, place) = some dim := by simpa using stated
    obtain inferred | copied | positive : entry = -1 ∨ entry = 0 ∨ 0 < entry := by
      have above := least entry (List.mem_of_getElem? found)
      omega
    · rw [inferred, entryDim_open] at reads
      cases reads
    · rw [copied, entryDim_copied] at reads
      rw [follows.copied place (copied ▸ found), reads]
    · rw [entryDim_stated positive] at reads
      rw [follows.kept place entry found positive, reads]
  obtain ⟨dim, rfl⟩ := eq_map_getD_of_agree (by simpa using follows.rank) agree
    (by rwa [count_none_entryDim legible])
  by_cases inferred : -1 ∈ target
  · have filled := (volume_filledDims_open legible single inferred dim).symm.trans follows.volume
    rw [openDim, ← filled, Nat.mul_div_cancel_left dim (Nat.pos_of_ne_zero (divides inferred).1)]
    rfl
  · exact map_getD_congr (mt (mem_none_entryDim legible).mp inferred) dim _

/-- What a target resolves to is what it asks for. Entry by entry, and in the number
of elements. -/
theorem follows_of_resolved (resolved : resolveReshape input target = .ok output) :
    Follows input target output := by
  obtain ⟨-, -, -, -, volume⟩ := resolveReshape_eq_ok_iff.mp resolved
  obtain ⟨resolvable, rfl⟩ := resolveReshape_eq_ok_iff_resolvable.mp resolved
  refine ⟨by simp [filledDims], fun place dim stated positive => ?_, fun place stated => ?_, volume⟩
  · rw [getElem?_filledDims, stated, Option.map_some, entryDim_stated positive, Option.getD_some]
  · rw [getElem?_filledDims, stated, Option.map_some, entryDim_copied,
      List.getElem?_eq_getElem (resolvable.inRank place stated), Option.getD_some]

/-- A target resolves exactly if it is resolvable, and then to the one shape that it asks for. The
dimension that it leaves open is what is left of the input's elements. -/
theorem resolution_exact (input : Shape) (target : List Int) :
    ((∃ output, resolveReshape input target = .ok output) ↔ Resolvable input target) ∧
      ∀ output, resolveReshape input target = .ok output →
        Follows input target output ∧
        (∀ place : Nat, target[place]? = some (-1) →
          output[place]? = some (input.volume / (statedDims input target).volume)) ∧
        ∀ other, Follows input target other → other = output := by
  refine ⟨by simp [resolveReshape_eq_ok_iff_resolvable], fun output resolved => ?_⟩
  have follows := follows_of_resolved resolved
  obtain ⟨resolvable, rfl⟩ := resolveReshape_eq_ok_iff_resolvable.mp resolved
  refine ⟨follows, fun place inferred => ?_, fun other followsToo =>
    followsToo.eq_filledDims resolvable⟩
  rw [getElem?_filledDims, inferred]
  rfl

/-- The second dimension of the input is copied and the last one takes what is left, also where there
are no elements at all. -/
theorem copied_resolution :
    resolveReshape [2, 3, 4] [8, 0, -1] = .ok [8, 3, 1] ∧
      Follows [2, 3, 4] [8, 0, -1] [8, 3, 1] ∧
      (∀ other, Follows [2, 3, 4] [8, 0, -1] other → other = [8, 3, 1]) ∧
      resolveReshape [0, 3] [5, -1] = .ok [5, 0] ∧
      ¬ Resolvable [0, 3] [0, -1] := by
  have resolved : resolveReshape [2, 3, 4] [8, 0, -1] = .ok [8, 3, 1] := by decide
  obtain ⟨-, exact⟩ := resolution_exact [2, 3, 4] [8, 0, -1]
  obtain ⟨follows, -, only⟩ := exact _ resolved
  have ambiguous : ¬ ∃ output, resolveReshape [0, 3] [0, -1] = .ok output := by
    rw [show resolveReshape [0, 3] [0, -1] = .error (.notDivisible 0 0) by decide]
    simp
  exact ⟨resolved, follows, only, by decide, mt (resolution_exact _ _).1.mpr ambiguous⟩

end RangeFold
