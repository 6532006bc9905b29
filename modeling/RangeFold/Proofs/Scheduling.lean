import RangeFold.Pass.Scripted
import RangeFold.Pipeline.Settings
import RangeFold.Proofs.Pipeline.Hints

/-!
# The order of passes

A pipeline whose passes have different names has an order exactly if its hints do not run in a
circle. It then takes every pass once, each after all it is hinted to run after, and of those that
could run next the one with the least priority runs first. Otherwise the passes on circles and
behind them are reported.

Where several passes share a name, a hint at it holds back the pass for the last of them only.
-/

namespace RangeFold

open Relation Schedule

variable {α : Type}

/-- Places that have names are named one by one. Nothing is dropped on the way. -/
theorem map_some_filterMap {β γ : Type} {name : β → Option γ} {places : List β}
    (named : ∀ place ∈ places, (name place).isSome = true) :
    (places.filterMap name).map some = places.map name := by
  induction places with
  | nil => rfl
  | cons place rest inductionHypothesis =>
    obtain ⟨first, others⟩ := List.forall_mem_cons.mp named
    obtain ⟨own, found⟩ := Option.isSome_iff_exists.mp first
    rw [List.filterMap_cons_some found, List.map_cons, List.map_cons, found,
      inductionHypothesis others]

namespace Pipeline

variable {pipeline : Pipeline α}

/-- The names in running order are those at the places of the schedule. Every place
has one. -/
theorem passOrder_of_order {places : List Nat}
    (ordered : Schedule.order pipeline.entries = .ok places) :
    ∃ ids, pipeline.passOrder = .ok ids ∧ places.map (idAt pipeline.entries) = ids.map some := by
  have taken (place : Nat) : idAt pipeline.entries place =
      ((pipeline.passes[place]?).map PlannedPass.pass).map Pass.id := by
    rw [idAt, entries, List.getElem?_map, Option.map_map, Option.map_map]
    rfl
  have same : pipeline.passOrder = .ok (places.filterMap (idAt pipeline.entries)) := by
    rw [passOrder, scheduled, ordered, funext taken, ← List.map_filterMap]
    rfl
  refine ⟨_, same, (map_some_filterMap fun place listed => ?_).symm⟩
  have inside := List.mem_range.mp ((ordered_of_order ordered).every.mem_iff.mp listed)
  simp [idAt, inside]

/-- A schedule that cannot be made is refused as such. -/
theorem passOrder_of_refused {failure : Failure}
    (refused : Schedule.order pipeline.entries = .error failure) :
    pipeline.passOrder = .error failure := by
  rw [passOrder, scheduled, refused]
  rfl

/-- Whether or not names repeat, there is an order exactly if the hints, as the schedule takes
them, do not run in a circle. -/
theorem exists_passOrder_iff : (∃ ids, pipeline.passOrder = .ok ids) ↔
    ∀ place, ¬ TransGen (Binds pipeline.entries) place place := by
  rcases order_verdict pipeline.entries with
    ⟨straight, _, ordered, -⟩ | ⟨⟨place, cycle⟩, _, _, refused, -⟩
  · obtain ⟨ids, same, -⟩ := passOrder_of_order ordered
    exact iff_of_true ⟨ids, same⟩ straight
  · refine iff_of_false ?_ fun straight => straight place cycle
    rintro ⟨ids, same⟩
    cases (passOrder_of_refused refused).symm.trans same

end Pipeline

/-- Passes with different names have an order exactly if their hints do not run in a circle. The
order takes each pass once, after all passes it is hinted to run after, and at every position the
one with the least priority of those that could come next, of equal ones the one added first.
Without an order the passes on circles and behind them are named, in the order in which they were
added. -/
theorem passOrder_of_distinct {pipeline : Pipeline α}
    (distinct : (pipeline.passes.map fun planned => planned.pass.id).Nodup) :
    ((∃ ids, pipeline.passOrder = .ok ids) ↔
        ∀ place, ¬ TransGen (Precedes pipeline.entries) place place) ∧
      (∀ ids, pipeline.passOrder = .ok ids → ∃ places,
        Ordered pipeline.entries (Precedes pipeline.entries) places ∧
          places.map (idAt pipeline.entries) = ids.map some) ∧
      ∀ failure, pipeline.passOrder = .error failure →
        ∃ (stuck : List Nat) (names : List String), failure = .orderingCycle names ∧
          stuck.map (idAt pipeline.entries) = names.map some ∧ stuck.Pairwise (· < ·) ∧
          ∀ place, place ∈ stuck ↔ Stuck (Precedes pipeline.entries) place := by
  have named : (pipeline.entries.map ScheduleEntry.id).Nodup := by
    rwa [Pipeline.entries, List.map_map]
  rw [← binds_of_distinct named]
  rcases order_verdict pipeline.entries with
    ⟨straight, places, ordered, earliest⟩ | ⟨circle, stuck, names, refused, shown⟩
  · obtain ⟨ids, same, shown⟩ := Pipeline.passOrder_of_order ordered
    refine ⟨⟨fun _ => straight, fun _ => ⟨ids, same⟩⟩, fun others sameToo => ?_, fun _ failed => ?_⟩
    · obtain rfl := Except.ok.inj (same.symm.trans sameToo)
      exact ⟨places, earliest, shown⟩
    · cases same.symm.trans failed
  · have failed := Pipeline.passOrder_of_refused refused
    refine ⟨⟨fun answered => ?_, fun straight => ?_⟩, fun ids same => ?_, fun _ failedToo => ?_⟩
    · obtain ⟨ids, same⟩ := answered
      cases failed.symm.trans same
    · obtain ⟨place, cycle⟩ := circle
      exact absurd cycle (straight place)
    · cases failed.symm.trans same
    · obtain rfl := Except.error.inj (failed.symm.trans failedToo)
      exact ⟨stuck, names, rfl, shown⟩

section Hinted

/-- A pass that is there for its place in the order only. -/
def placed (id : String) (priority : Int) (runsAfter : List String) : Pass Rat :=
  Script.toPass ⟨id, priority, runsAfter, .nothing, .decline, true⟩

/-- Hints that are repeated, at names that are missing and against the priorities. -/
def hinted : Pipeline Rat :=
  ((Pipeline.empty.withPass (placed "last" (-5) ["middle", "absent", "middle"])).withPass
    (placed "middle" 7 ["first"])).withPass (placed "first" 7 [])

/-- One pass with a hint at itself, one behind it and one before both. -/
def entangled : Pipeline Rat :=
  ((Pipeline.empty.withPass (placed "behind" 0 ["circle"])).withPass
    (placed "before" 0 [])).withPass (placed "circle" 0 ["circle", "before"])

/-- Hints come before priorities in the first pipeline; in the second one a circle
holds up its own passes and the one behind it. -/
theorem hinted_and_entangled_order :
    (hinted.passes.map fun planned => planned.pass.id).Nodup ∧
      (∃ places, Ordered hinted.entries (Precedes hinted.entries) places ∧
        places.map (idAt hinted.entries) = [some "first", some "middle", some "last"]) ∧
      (entangled.passes.map fun planned => planned.pass.id).Nodup ∧
      ∃ stuck : List Nat, stuck.map (idAt entangled.entries) = [some "behind", some "circle"] ∧
        ∀ place, place ∈ stuck ↔ Stuck (Precedes entangled.entries) place := by
  refine ⟨by decide, (passOrder_of_distinct (by decide)).2.1 ["first", "middle", "last"] rfl,
    by decide, ?_⟩
  obtain ⟨stuck, names, same, shown, -, behind⟩ :=
    (@passOrder_of_distinct _ entangled (by decide)).2.2 (.orderingCycle ["behind", "circle"]) rfl
  obtain rfl := Failure.orderingCycle.inj same
  exact ⟨stuck, shown, behind⟩

end Hinted

/-- The order of a pipeline, whether or not names repeat, is the earliest one in which the last
pass of each hinted name comes first. Every pass runs after all passes it is hinted to run after
exactly if that is also the earliest order in which all of them come first. -/
theorem hints_honored_iff {pipeline : Pipeline α} {ids : List String}
    (ordered : pipeline.passOrder = .ok ids) : ∃ places,
      Schedule.order pipeline.entries = .ok places ∧
      places.map (idAt pipeline.entries) = ids.map some ∧
      Ordered pipeline.entries (Binds pipeline.entries) places ∧
      (Honored (Precedes pipeline.entries) places ↔
        Ordered pipeline.entries (Precedes pipeline.entries) places) := by
  rcases order_verdict pipeline.entries with
    ⟨-, places, same, earliest⟩ | ⟨-, _, _, refused, -⟩
  · obtain ⟨_, sameNames, shown⟩ := Pipeline.passOrder_of_order same
    obtain rfl := Except.ok.inj (sameNames.symm.trans ordered)
    exact ⟨places, same, shown, earliest, earliest.honored_iff fun _ _ => And.left⟩
  · cases (Pipeline.passOrder_of_refused refused).symm.trans ordered

/-- The order found for the first pipeline honors its hints. -/
theorem hinted_honored : hinted.passOrder = .ok ["first", "middle", "last"] ∧ ∃ places,
    Schedule.order hinted.entries = .ok places ∧ Honored (Precedes hinted.entries) places := by
  obtain ⟨places, same, -, earliest, honored⟩ := @hints_honored_iff _ hinted _ rfl
  rw [binds_of_distinct (by decide)] at earliest
  exact ⟨rfl, places, same, honored.mpr earliest⟩

section Repeated

/-- A registry that has one maker under two names. -/
def twiceRegistered : Registry Rat :=
  Registry.builtin.register "shift_again" (makePlain shiftFusion)

/-- Settings that list it under both names, once late and once at its usual priority. -/
def twiceListed : PipelineSettings :=
  { PipelineSettings.standard with
    passes := [⟨"fuse_add_to_quantization_range", true, some 200, []⟩,
      .plain "fuse_quantization_range", .plain "shift_again"] }

/-- The pipeline of these settings. -/
def repeated : Pipeline Rat :=
  ((Pipeline.empty.withPassAt shiftFusion 200).withPass
    (constantFolding defaultChainLimit)).withPass shiftFusion

/-- The first pass runs last, although the second one is hinted to run after its
name. The name has come to mean the last pass that bears it. -/
theorem repeated_order_unhinted :
    Pipeline.ofSettings twiceRegistered twiceListed = .ok repeated ∧
      Schedule.order repeated.entries = .ok [2, 1, 0] ∧
      Precedes repeated.entries 0 1 ∧ ¬ Honored (Precedes repeated.entries) [2, 1, 0] := by
  have hint : Precedes repeated.entries 0 1 := ⟨_, _, rfl, rfl, by decide⟩
  refine ⟨rfl, rfl, hint, fun honored => ?_⟩
  exact absurd (honored 0 1 hint) (by decide)

end Repeated

end RangeFold
