import RangeFold.Pipeline.Run
import RangeFold.Proofs.Pipeline.Runs
import RangeFold.Proofs.Readiness
import Mathlib.Algebra.BigOperators.Group.Finset.Basic
import Mathlib.Algebra.Order.BigOperators.Group.Multiset

/-!
# Schedules are listings

The order of a pipeline's passes is the listing of their places by readiness, where a place
is owed one supply for each of its hints that names a pass of the pipeline. At the start the
counters say so, and the queue has the places without such hints, by priority. Where no hints
run in a circle, every place is listed once, so the pipeline has an order and every pass
takes part. Otherwise the places that are left out are those with positive counters, and their
names are reported.
-/

namespace RangeFold

variable {α : Type}

namespace Schedule

variable {entries : List ScheduleEntry}

/-- The schedule compares places by priority and then by position, which is total
and transitive. -/
theorem ranks (entries : List ScheduleEntry) : Readiness.Ranks (earlier entries) where
  total left right := by
    simp only [earlier, Bool.or_eq_true, Bool.and_eq_true, decide_eq_true_eq]
    omega
  trans left middle right := by
    simp only [earlier, Bool.or_eq_true, Bool.and_eq_true, decide_eq_true_eq]
    omega

/-- A hint means a place of the schedule that has the hinted name. It may be the
place of the hinting entry itself. -/
theorem hintedPlace_eq_some {id : String} {place : Nat}
    (hinted : hintedPlace entries id = some place) :
    ∃ entry, entries[place]? = some entry ∧ entry.id = id := by
  obtain ⟨⟨entry, own⟩, last, rfl⟩ := Option.map_eq_some_iff.mp hinted
  obtain ⟨listed, named⟩ := List.mem_filter.mp (List.mem_of_getLast? last)
  exact ⟨entry, List.mk_mem_zipIdx_iff_getElem?.mp listed, beq_iff_eq.mp named⟩

/-- What an entry waits for is a place of the schedule: hints that name no entry are
passed over. -/
theorem lt_of_prerequisite {entry : ScheduleEntry} {place : Nat}
    (waits : place ∈ prerequisites entries entry) : place < entries.length := by
  obtain ⟨id, _, hinted⟩ := List.mem_filterMap.mp waits
  obtain ⟨other, found, -⟩ := hintedPlace_eq_some hinted
  exact (List.getElem?_eq_some_iff.mp found).1

/-- One place waits for another if it has it among its prerequisites. The two lists
tell one relation from its two sides. -/
theorem mem_successors_iff {place own : Nat} : own ∈ successors entries place ↔
    ∃ entry, entries[own]? = some entry ∧ place ∈ prerequisites entries entry := by
  simp only [successors, List.mem_flatMap, Prod.exists, List.mk_mem_zipIdx_iff_getElem?,
    List.mem_map, List.mem_filter, decide_eq_true_eq]
  constructor
  · rintro ⟨entry, _, found, place, ⟨waits, rfl⟩, rfl⟩
    exact ⟨entry, found, waits⟩
  · rintro ⟨entry, found, waits⟩
    exact ⟨entry, own, found, place, ⟨waits, rfl⟩, rfl⟩

/-- A place is among the successors of another once for each of its hints at it. A
hint that is given twice counts twice on both sides, so the counters still come to
zero. -/
theorem count_successors {own : Nat} {entry : ScheduleEntry} (found : entries[own]? = some entry)
    (place : Nat) :
    (successors entries place).count own = (prerequisites entries entry).count place := by
  have distinct : entries.zipIdx.Nodup := by
    apply List.Nodup.of_map Prod.snd
    rw [List.zipIdx_map_snd]
    exact List.nodup_range'
  have member : (entry, own) ∈ entries.zipIdx := List.mk_mem_zipIdx_iff_getElem?.mpr found
  rw [successors, List.count_flatMap, List.sum_map_eq_nsmul_single (entry, own)]
  · rw [@List.count_eq_one_of_mem _ instBEqOfDecidableEq _ _ _ distinct member, one_nsmul]
    simp only [Function.comp_apply, List.map_const', List.count_replicate_self]
    rw [List.count, List.countP_eq_length_filter]
    congr
  · rintro ⟨other, index⟩ different listed
    have apart : index ≠ own := by
      rintro rfl
      have same := (List.mk_mem_zipIdx_iff_getElem?.mp listed).symm.trans found
      exact different (by rw [Option.some.inj same])
    simp [List.count_eq_zero, apart.symm]

/-- At the start every place is owed one supply for each of its hints. Hints that
name no entry are not counted. -/
theorem owed_start {own : Nat} {entry : ScheduleEntry} (found : entries[own]? = some entry) :
    Readiness.owed (successors entries) (List.range entries.length) [] own =
      (prerequisites entries entry).length := by
  have all : (List.range entries.length).filter (· ∉ ([] : List Nat)) =
      List.range entries.length := List.filter_eq_self.mpr (by simp)
  rw [Readiness.owed, Readiness.outstanding, all, List.count_flatMap,
    ← List.sum_toFinset _ List.nodup_range]
  simp only [Function.comp_apply, count_successors found]
  have within (place : Nat) (waits : place ∈ (prerequisites entries entry : Multiset Nat)) :
      place ∈ (List.range entries.length).toFinset := by
    simpa using lt_of_prerequisite (Multiset.mem_coe.mp waits)
  simpa using Multiset.sum_count_eq_card within

/-- The counters start with the hints, and the queue with the places that have none.
The listing starts from a state that is in step with it. -/
theorem initial_tracks (entries : List ScheduleEntry) :
    Readiness.Tracks (earlier entries) (List.range entries.length) []
      (Readiness.owed (successors entries) (List.range entries.length) []) (initial entries) := by
  let free := (entries.zipIdx.filter fun item => (prerequisites entries item.1).isEmpty).map
    Prod.snd
  -- The queue is built by inserting, which rearranges and sorts.
  have queue (places : List Nat) :
      (places.foldr (Readiness.insertReady (earlier entries)) []).Perm places := by
    induction places with
    | nil => exact .refl _
    | cons place rest inductionHypothesis =>
      exact Readiness.insertReady_perm.trans (inductionHypothesis.cons place)
  have sorted (places : List Nat) :
      (places.foldr (Readiness.insertReady (earlier entries)) []).Pairwise
        fun left right => earlier entries left right = true := by
    induction places with
    | nil => exact .nil
    | cons place rest inductionHypothesis =>
      exact Readiness.insertReady_sorted (ranks entries) inductionHypothesis
  have increasing : free.Nodup := by
    have indices : (entries.zipIdx.map Prod.snd).Nodup := by
      rw [List.zipIdx_map_snd]
      exact List.nodup_range'
    exact indices.sublist (List.filter_sublist.map Prod.snd)
  refine ⟨?_, ?_, (queue free).nodup_iff.mpr increasing, sorted free⟩
  · intro place member
    have inside : place < entries.length := List.mem_range.mp member
    have found := List.getElem?_eq_getElem inside
    rw [owed_start found]
    simp [initial, inside]
  · intro place
    show place ∈ free.foldr (Readiness.insertReady (earlier entries)) [] ↔ _
    rw [(queue free).mem_iff]
    simp only [free, List.mem_map, List.mem_filter, Prod.exists,
      exists_eq_right, List.mk_mem_zipIdx_iff_getElem?, List.mem_range, List.not_mem_nil,
      not_false_eq_true, true_and]
    constructor
    · rintro ⟨entry, found, unhinted⟩
      refine ⟨(List.getElem?_eq_some_iff.mp found).1, ?_⟩
      rw [owed_start found, List.isEmpty_iff.mp unhinted]
      rfl
    · rintro ⟨inside, none⟩
      have found := List.getElem?_eq_getElem inside
      rw [owed_start found] at none
      exact ⟨_, found, List.isEmpty_iff.mpr (List.length_eq_zero_iff.mp none)⟩

/-- The places that the schedule lists are a listing of all places, and the counters are left with
what is still owed then. -/
theorem listing (entries : List ScheduleEntry) :
    let outcome := Readiness.list (earlier entries) (successors entries) entries.length
      (initial entries)
    Readiness.Listing (earlier entries) (successors entries) (List.range entries.length) []
        outcome.1 ∧
      Readiness.Tracks (earlier entries) (List.range entries.length) outcome.1.reverse
        (Readiness.owed (successors entries) (List.range entries.length) outcome.1.reverse)
        outcome.2 := by
  intro outcome
  have enough : ((List.range entries.length).filter (· ∉ ([] : List Nat))).length ≤
      entries.length := by
    rw [List.filter_eq_self.mpr (by simp), List.length_range]
  have closed : ∀ place ∈ List.range entries.length, ∀ own ∈ successors entries place,
      own ∈ List.range entries.length := by
    intro place _ own waits
    obtain ⟨entry, found, -⟩ := mem_successors_iff.mp waits
    exact List.mem_range.mpr (List.getElem?_eq_some_iff.mp found).1
  have run := Readiness.list_listing (ranks entries) List.nodup_range closed
    (initial_tracks entries) (fun _ listed => absurd listed List.not_mem_nil) enough
  simpa using run

/-- The name of the entry at a place. -/
def idAt (entries : List ScheduleEntry) (place : Nat) : Option String :=
  (entries[place]?).map ScheduleEntry.id

/-- The entries whose counters are positive, in the order of the entries. They are
what a refusal names. -/
theorem names_of_counters {missing : List Int} {owed : Nat → Nat}
    (counted : ∀ place < entries.length, missing[place]? = some (owed place : Int)) :
    ∃ places : List Nat, places.map (idAt entries) = (((entries.zip missing).filter
        fun (_, left) => decide (0 < left)).map fun (entry, _) => entry.id).map some ∧
      places.Pairwise (· < ·) ∧
      ∀ place, place ∈ places ↔ place < entries.length ∧ 0 < owed place := by
  have paired : entries.zip missing = entries.zipIdx.map fun item =>
      (item.1, (owed item.2 : Int)) := by
    apply List.ext_getElem?
    intro place
    by_cases inside : place < entries.length
    · simp [List.zip, List.getElem?_zipWith, counted place inside, inside]
    · simp [List.zip, inside]
  let waiting := entries.zipIdx.filter fun item => decide (0 < owed item.2)
  refine ⟨waiting.map Prod.snd, ?_, ?_, fun place => ?_⟩
  · rw [paired, List.filter_map, List.map_map, List.map_map, List.map_map]
    have same : waiting = entries.zipIdx.filter ((fun (_, left) => decide (0 < left)) ∘
        fun item => (item.1, (owed item.2 : Int))) := by
      apply List.filter_congr
      rintro ⟨entry, place⟩ -
      simp
    rw [← same]
    apply List.map_congr_left
    rintro ⟨entry, place⟩ listed
    have found := List.mk_mem_zipIdx_iff_getElem?.mp (List.mem_of_mem_filter listed)
    simp [idAt, found]
  · have increasing : (entries.zipIdx.map Prod.snd).Pairwise (· < ·) := by
      rw [List.zipIdx_map_snd]
      exact List.pairwise_lt_range'
    exact increasing.sublist (List.filter_sublist.map Prod.snd)
  · simp only [waiting, List.mem_map, List.mem_filter, Prod.exists, exists_eq_right,
      List.mk_mem_zipIdx_iff_getElem?, decide_eq_true_eq, exists_and_right,
      List.getElem?_eq_some_iff]
    grind

/-- There is an order of all places, or the names at the places that are left out
are reported. Nothing else can come of it. -/
theorem order_cases (entries : List ScheduleEntry) : ∃ places,
    Readiness.Listing (earlier entries) (successors entries) (List.range entries.length) []
        places ∧
      (places.Perm (List.range entries.length) ∧ order entries = .ok places ∨
        ¬ places.Perm (List.range entries.length) ∧ ∃ (stuck : List Nat) (names : List String),
          order entries = .error (.orderingCycle names) ∧
          stuck.map (idAt entries) = names.map some ∧ stuck.Pairwise (· < ·) ∧
          ∀ place, place ∈ stuck ↔ place < entries.length ∧ place ∉ places) := by
  obtain ⟨run, tracks⟩ := listing entries
  let outcome := Readiness.list (earlier entries) (successors entries) entries.length
    (initial entries)
  refine ⟨outcome.1, run, ?_⟩
  by_cases counted : outcome.1.length = entries.length
  · refine .inl ⟨?_, if_pos counted⟩
    have within : outcome.1 ⊆ List.range entries.length := fun place => run.subset
    exact (run.nodup.subperm within).perm_of_length_le
      (by rw [List.length_range]; exact counted.ge)
  · refine .inr ⟨fun every => counted (by rw [every.length_eq, List.length_range]), ?_⟩
    obtain ⟨stuck, named, increasing, waiting⟩ := names_of_counters
      fun place inside => tracks.counted place (List.mem_range.mpr inside)
    refine ⟨stuck, _, if_neg counted, named, increasing, fun place => ?_⟩
    rw [waiting, Readiness.owed, List.count_pos_iff]
    refine and_congr_right fun inside => ⟨fun due listed => ?_, fun unlisted => ?_⟩
    · have settled := run.settled fun _ old => absurd old List.not_mem_nil
      rw [List.append_nil] at settled
      exact settled place (List.mem_reverse.mpr listed) due
    · by_contra free
      have exhausted := run.exhausted place
      rw [List.append_nil] at exhausted
      exact exhausted ⟨List.mem_range.mpr inside, by simpa using unlisted, free⟩

/-- Without circles there is an order, of all places. A listing that stops early
would leave a place whose supply is never listed. -/
theorem order_eq_ok (grounded : WellFounded
      (Readiness.Fed (successors entries) (List.range entries.length))) :
    ∃ places, order entries = .ok places ∧ places.Perm (List.range entries.length) := by
  obtain ⟨places, run, ⟨every, ordered⟩ | ⟨partly, -⟩⟩ := order_cases entries
  · exact ⟨places, ordered, every⟩
  · refine absurd ?_ partly
    rw [List.perm_ext_iff_of_nodup run.nodup List.nodup_range]
    exact fun place => ⟨run.subset, run.mem_of_acc (grounded.apply place)⟩

/-- Hints that only ever mean entries of lower ranks do not run in a circle. The
builtin passes are of this kind. -/
theorem grounded_of_rank (rank : ScheduleEntry → Nat)
    (lower : ∀ entry ∈ entries, ∀ other ∈ entries, other.id ∈ entry.runsAfter →
      rank other < rank entry) :
    WellFounded (Readiness.Fed (successors entries) (List.range entries.length)) := by
  refine Subrelation.wf ?_
    (measure fun place => (entries[place]?).elim 0 rank).wf
  rintro first second ⟨-, follows⟩
  obtain ⟨entry, found, waits⟩ := mem_successors_iff.mp follows
  obtain ⟨id, hinted, means⟩ := List.mem_filterMap.mp waits
  obtain ⟨other, foundOther, rfl⟩ := hintedPlace_eq_some means
  show (entries[first]?).elim 0 rank < (entries[second]?).elim 0 rank
  rw [found, foundOther]
  exact lower entry (List.mem_of_getElem? found) other (List.mem_of_getElem? foundOther) hinted

end Schedule

/-- A pipeline whose hints do not run in a circle has an order in which all its passes take
part. -/
theorem Pipeline.scheduled_eq_ok {pipeline : Pipeline α} (rank : ScheduleEntry → Nat)
    (lower : ∀ entry ∈ pipeline.entries, ∀ other ∈ pipeline.entries, other.id ∈ entry.runsAfter →
      rank other < rank entry) :
    ∃ passes, pipeline.scheduled = .ok passes ∧
      ∀ planned ∈ pipeline.passes, planned.pass ∈ passes := by
  obtain ⟨places, ordered, every⟩ :=
    Schedule.order_eq_ok (Schedule.grounded_of_rank rank lower)
  refine ⟨_, by rw [Pipeline.scheduled, ordered]; rfl, fun planned member => ?_⟩
  obtain ⟨place, found⟩ := List.mem_iff_getElem?.mp member
  have inside : place < pipeline.entries.length := by
    rw [entries, List.length_map]
    exact (List.getElem?_eq_some_iff.mp found).1
  have listed : place ∈ places := every.mem_iff.mpr (List.mem_range.mpr inside)
  exact List.mem_filterMap.mpr ⟨place, listed, by rw [found]; rfl⟩

end RangeFold
