import RangeFold.Tensor.Axis
import RangeFold.Proofs.Steps
import RangeFold.Proofs.Tensor.Indexing
import Mathlib.Data.List.ReduceOption
import Mathlib.Tactic.Ring

/-!
# Reading a reshape target

Each entry of a target is read by itself, in view of its place: it states a dimension, copies the one
that the input has at the place, or leaves it open. Reading succeeds if every entry can be read and no
second one leaves its dimension open. The open dimension then takes what is left of the elements, and
the product of all dimensions is that of the stated ones times a power of it, by how many are open.
-/

namespace RangeFold

variable {input output other : Shape} {target rest : List Int}

/-- The dimension that an entry states at its place, if it does not leave it open. -/
def entryDim (input : Shape) (item : Int × Nat) : Option Nat :=
  if item.1 = -1 then none else if item.1 = 0 then input[item.2]? else some item.1.toNat

/-- An entry can be read at its place. -/
def Legible (input : Shape) (item : Int × Nat) : Prop :=
  -1 ≤ item.1 ∧ (item.1 = 0 → item.2 < input.length)

/-- An entry of -1 leaves its dimension open. -/
theorem entryDim_open {place : Nat} : entryDim input (-1, place) = none := rfl

/-- An entry of 0 copies the dimension of the input at its place. -/
theorem entryDim_copied {place : Nat} : entryDim input (0, place) = input[place]? := rfl

/-- A positive entry states its dimension. -/
theorem entryDim_stated {entry : Int} {place : Nat} (positive : 0 < entry) :
    entryDim input (entry, place) = some entry.toNat := by
  have stated : entry ≠ -1 ∧ entry ≠ 0 := by omega
  simp [entryDim, stated]

/-- Only -1 leaves a dimension open. An entry of 0 always finds a dimension to copy
if it is legible. -/
theorem entryDim_eq_none_iff {item : Int × Nat} (legible : Legible input item) :
    entryDim input item = none ↔ item.1 = -1 := by
  unfold entryDim
  split
  · rename_i inferred
    exact iff_of_true rfl inferred
  · rename_i stated
    refine iff_of_false ?_ stated
    split
    · rename_i copied
      simpa using legible.2 copied
    · exact Option.some_ne_none _

/-- The first entry is read, and the others after it. Having left a dimension open
is remembered for the rest. -/
theorem reshapeEntries_cons {entry : Int} {start : Nat} {inferring : Bool}
    {entries : List (Option Nat)} :
    reshapeEntries input target start inferring (entry :: rest) = .ok entries ↔
      Legible input (entry, start) ∧ ¬ (inferring = true ∧ entry = -1) ∧
        ∃ others, reshapeEntries input target (start + 1) (inferring || decide (entry = -1)) rest =
            .ok others ∧ entries = entryDim input (entry, start) :: others := by
  rw [reshapeEntries]
  by_cases inferred : entry = -1
  · cases inferring <;> simp [inferred, Legible, entryDim, Attempt.map_eq_ok_iff]
  · by_cases copied : entry = 0
    · cases found : input[start]? with
      | none =>
        have beyond : ¬ start < input.length := by simpa using found
        simp [copied, Legible, beyond]
      | some dim =>
        obtain ⟨within, rfl⟩ := List.getElem?_eq_some_iff.mp found
        simp [copied, Legible, entryDim, Attempt.map_eq_ok_iff, within]
    · by_cases negative : entry < 0
      · have below : ¬ -1 ≤ entry := by omega
        simp [inferred, copied, negative, Legible, below]
      · have above : -1 ≤ entry := by omega
        simp [inferred, copied, negative, Legible, entryDim, Attempt.map_eq_ok_iff, above]

/-- The entries are read one by one, and at most one of them leaves its dimension
open. The flag counts as an entry of -1 that was read before. -/
theorem reshapeEntries_eq_ok_iff {start : Nat} {inferring : Bool} {entries : List (Option Nat)} :
    reshapeEntries input target start inferring rest = .ok entries ↔
      (∀ item ∈ rest.zipIdx start, Legible input item) ∧
        rest.count (-1) + inferring.toNat ≤ 1 ∧
        entries = (rest.zipIdx start).map (entryDim input) := by
  induction rest generalizing start inferring entries with
  | nil => cases inferring <;> simp [reshapeEntries, eq_comm]
  | cons entry rest inductionHypothesis =>
    have counted : ¬ (inferring = true ∧ entry = -1) ∧
        rest.count (-1) + (inferring || decide (entry = -1)).toNat ≤ 1 ↔
          (entry :: rest).count (-1) + inferring.toNat ≤ 1 := by
      rw [List.count_cons]
      cases inferring <;> by_cases inferred : entry = -1 <;> simp [inferred]
    rw [reshapeEntries_cons, List.zipIdx_cons, List.forall_mem_cons, List.map_cons, ← counted]
    simp only [inductionHypothesis]
    constructor
    · rintro ⟨legible, fresh, others, ⟨legibleToo, few, rfl⟩, rfl⟩
      exact ⟨⟨legible, legibleToo⟩, ⟨fresh, few⟩, rfl⟩
    · rintro ⟨⟨legible, legibleToo⟩, ⟨fresh, few⟩, rfl⟩
      exact ⟨legible, fresh, _, ⟨legibleToo, few, rfl⟩, rfl⟩

/-- As many dimensions are left open as there are entries of -1. The two ways of
counting them are used side by side. -/
theorem count_none_entryDim (legible : ∀ item ∈ target.zipIdx, Legible input item) :
    (target.zipIdx.map (entryDim input)).count none = target.count (-1) := by
  have entries : target = target.zipIdx.map Prod.fst := by simp
  conv_rhs => rw [entries]
  rw [List.count, List.count, List.countP_map, List.countP_map]
  refine List.countP_congr fun item listed => ?_
  simpa using entryDim_eq_none_iff (legible item listed)

/-- A dimension is left open exactly if -1 is among the entries, provided all of
them can be read. -/
theorem mem_none_entryDim (legible : ∀ item ∈ target.zipIdx, Legible input item) :
    none ∈ target.zipIdx.map (entryDim input) ↔ -1 ∈ target := by
  rw [← List.count_pos_iff, count_none_entryDim legible, List.count_pos_iff]

/-- Where no dimension is left open, it does not matter what an open one would be.
The filled shape is then the stated one. -/
theorem map_getD_congr {entries : List (Option Nat)} (stated : none ∉ entries) (first second : Nat) :
    entries.map (·.getD first) = entries.map (·.getD second) := by
  refine List.map_congr_left fun entry listed => ?_
  cases entry with
  | none => exact absurd listed stated
  | some dim => rfl

/-- Dimensions that agree with all entries that state one follow from what the open
one is. With no open one there is nothing to choose. -/
theorem eq_map_getD_of_agree {entries : List (Option Nat)} {dims : Shape}
    (sized : dims.length = entries.length)
    (agree : ∀ (place dim : Nat), entries[place]? = some (some dim) → dims[place]? = some dim)
    (few : entries.count none ≤ 1) : ∃ dim, dims = entries.map (·.getD dim) := by
  induction entries generalizing dims with
  | nil => exact ⟨0, List.eq_nil_of_length_eq_zero sized⟩
  | cons entry rest inductionHypothesis =>
    cases dims with
    | nil => cases sized
    | cons dim dims =>
      have behind := inductionHypothesis (Nat.succ.inj sized) fun place => agree (place + 1)
      cases entry with
      | none =>
        rw [List.count_cons_self] at few
        obtain ⟨other, rfl⟩ := behind (by omega)
        have stated : none ∉ rest := List.count_eq_zero.mp (by omega)
        exact ⟨dim, congrArg (dim :: ·) (map_getD_congr stated other dim)⟩
      | some stated =>
        rw [List.count_cons_of_ne (by simp)] at few
        obtain ⟨other, rfl⟩ := behind few
        obtain rfl := Option.some.inj (agree 0 stated rfl)
        exact ⟨other, rfl⟩

namespace Shape

/-- With every open dimension the same, the product is that of the stated ones times
a power. The power is the zeroth or the first, as at most one is open. -/
theorem volume_map_getD (entries : List (Option Nat)) (dim : Nat) :
    volume (entries.map (·.getD dim)) = volume entries.reduceOption * dim ^ entries.count none := by
  induction entries with
  | nil => rfl
  | cons entry rest inductionHypothesis =>
    cases entry with
    | none =>
      rw [List.map_cons, volume_cons, inductionHypothesis, Option.getD_none,
        List.reduceOption_cons_of_none, List.count_cons_self, pow_succ]
      ring
    | some stated =>
      rw [List.map_cons, volume_cons, inductionHypothesis, Option.getD_some,
        List.reduceOption_cons_of_some, List.count_cons_of_ne (by simp), volume_cons, Nat.mul_assoc]

end Shape

/-- The dimensions that the entries of a target state. -/
def statedDims (input : Shape) (target : List Int) : Shape :=
  target.zipIdx.filterMap (entryDim input)

/-- What is left of the elements of an input for an open dimension. -/
def openDim (input : Shape) (target : List Int) : Nat :=
  input.volume / (statedDims input target).volume

/-- The dimensions that are not left open are the stated ones, in order. -/
theorem reduceOption_entryDim :
    (target.zipIdx.map (entryDim input)).reduceOption = statedDims input target := by
  simp [List.reduceOption, statedDims, List.filterMap_map]

/-- A target is resolved by reading its entries and then filling in the open dimension, which the
elements of the input must allow for. -/
theorem resolveReshape_eq_ok_iff : resolveReshape input target = .ok output ↔
    (∀ item ∈ target.zipIdx, Legible input item) ∧ target.count (-1) ≤ 1 ∧
      (-1 ∈ target → (statedDims input target).volume ≠ 0 ∧
        (statedDims input target).volume ∣ input.volume) ∧
      output = (target.zipIdx.map (entryDim input)).map (·.getD (openDim input target)) ∧
      output.volume = input.volume := by
  have known : Shape.volume ((target.zipIdx.map (entryDim input)).map (·.getD 1)) =
      (statedDims input target).volume := by
    rw [Shape.volume_map_getD, Nat.one_pow, Nat.mul_one, reduceOption_entryDim]
  unfold resolveReshape
  simp only [Attempt.bind_eq_ok_iff, reshapeEntries_eq_ok_iff, Attempt.throw_bind,
    Attempt.refusal_eq_ok_iff, pure, Except.pure, Except.ok.injEq]
  constructor
  · rintro ⟨entries, ⟨legible, few, rfl⟩, divides, same, rfl⟩
    rw [known] at divides same ⊢
    refine ⟨legible, few, fun inferred => ?_, rfl, not_not.mp same⟩
    simpa [List.contains_iff_mem, mem_none_entryDim legible, inferred, Nat.dvd_iff_mod_eq_zero]
      using divides
  · rintro ⟨legible, few, divides, rfl, same⟩
    refine ⟨_, ⟨legible, few, rfl⟩, ?_, ?_, ?_⟩ <;> rw [known]
    · simpa [List.contains_iff_mem, mem_none_entryDim legible, Nat.dvd_iff_mod_eq_zero]
        using divides
    · exact not_not.mpr same
    · rfl

end RangeFold
