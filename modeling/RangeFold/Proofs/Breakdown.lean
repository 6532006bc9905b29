import RangeFold.Proofs.Bookkeeping
import RangeFold.Proofs.Pipeline.Applications

/-!
# How runs break down

A run fails in two ways only. Hints in a circle leave it without an order, and then it does not
begin. Otherwise a pass has failed at a node, in a way that is not only to be reported, and the run
ends there, with the state that the pass left. The checks between changes and the pruning at the
end cannot fail, because every graph on the way is sound, also the one at which a run breaks off.
-/

namespace RangeFold

open Attempt

variable {α : Type}

/-- Only circles of hints leave entries without an order. No pass has been applied
when this is found. -/
theorem Schedule.order_fails {entries : List ScheduleEntry} {failure : Failure}
    (refused : Schedule.order entries = .error failure) :
    ∃ names, failure = .orderingCycle names := by
  unfold Schedule.order at refused
  split at refused
  split at refused
  · cases refused
  · exact ⟨_, (Except.error.inj refused).symm⟩

/-- Scheduling has one way to fail, a circle of hints, and names the passes that it
holds up. -/
theorem Pipeline.scheduled_fails {pipeline : Pipeline α} {failure : Failure}
    (refused : pipeline.scheduled = .error failure) : ∃ names, failure = .orderingCycle names := by
  unfold Pipeline.scheduled at refused
  cases ordered : Schedule.order pipeline.entries with
  | ok places => simp [ordered, Except.map] at refused
  | error cause =>
    rw [ordered] at refused
    exact Except.error.inj refused ▸ Schedule.order_fails ordered

variable [Arithmetic α]

/-- The ways in which a run from a state can come to an end. -/
inductive Pipeline.Concludes (pipeline : Pipeline α) (start : Progress α) :
    Except Failure RunStats × Progress α → Prop where
  /-- The passes have no order, and the state is as it was. -/
  | unordered {names : List String} (refused : pipeline.scheduled = .error (.orderingCycle names))
      (idle : pipeline.applications start = []) :
      Concludes pipeline start (.error (.orderingCycle names), start)
  /-- No pass fails in a way that ends the run. -/
  | finished {stats : RunStats} {after : Progress α}
      (survived : ∀ application ∈ pipeline.applications start, ¬ application.Aborts)
      (sound : after.graph.Sound) : Concludes pipeline start (.ok stats, after)
  /-- A pass of the pipeline fails at a live node, as the first one that the run does not survive.
  The failure names both, the node by the name that it has when the pass is applied. -/
  | aborted {others : List (Application α)} {last : Application α} {planned : PlannedPass α}
      {node : Node α} {cause : Failure} {after : Progress α}
      (applied : pipeline.applications start = others ++ [last])
      (survived : ∀ application ∈ others, ¬ application.Aborts)
      (listed : planned ∈ pipeline.passes) (own : last.pass = planned.pass)
      (found : last.before.graph.node last.id = some node)
      (failed : last.outcome = (.error cause, after)) (grave : cause.isRecoverable = false)
      (sound : after.graph.Sound) :
      Concludes pipeline start (.error (.passFailed planned.pass.id node.name cause), after)

/-- Every run over provided passes concludes in one of these ways. Its graph goes from one
application of a pass to the next until the last sweep is over, it passes the check after each of
them, and it can be pruned then. -/
theorem run_concludes {graph : Graph α} (reachable : graph.Reachable) {pipeline : Pipeline α}
    (provided : ∀ planned ∈ pipeline.passes, planned.pass.Provided) (journal : Journal) :
    pipeline.Concludes ⟨graph, journal⟩ (pipeline.runFrom ⟨graph, journal⟩) ∧
      Handed graph (pipeline.applications ⟨graph, journal⟩) (pipeline.swept ⟨graph, journal⟩) ∧
      (∀ application ∈ pipeline.applications ⟨graph, journal⟩,
        application.Proper ∧ application.outcome.2.graph.check = .ok ()) ∧
      ∃ removed, Graph.prune (pipeline.swept ⟨graph, journal⟩) =
        (.ok removed, (pipeline.swept ⟨graph, journal⟩).pruned) := by
  have sound := reachable.sound
  cases ordered : pipeline.scheduled with
  | error failure =>
    -- Without an order no pass is applied, and the graph is as it was.
    obtain ⟨names, rfl⟩ := Pipeline.scheduled_fails ordered
    have orderedUnpruned : (pipeline.withPruning false).scheduled = .error (.orderingCycle names) :=
      ordered
    have none : pipeline.applications ⟨graph, journal⟩ = [] := by
      rw [Pipeline.applications, ordered]
    have left : pipeline.swept ⟨graph, journal⟩ = graph := by
      rw [Pipeline.swept, Pipeline.runFrom, lift_bind_of_error orderedUnpruned]
    rw [Pipeline.runFrom, lift_bind_of_error ordered, left, none]
    exact ⟨.unordered ordered none, rfl, by simp, _, sound.prune_eq.1⟩
  | ok passes =>
    have soundStart : (⟨graph, journal⟩ : Progress α).graph.Sound := sound
    obtain ⟨outcome, stretch, concluded, left⟩ :=
      Pipeline.runFrom_stretch ordered provided soundStart
    have soundSwept : outcome.2.graph.Sound := stretch.sound
    have kept := Pipeline.keeps_runFrom
      (fun planned listed => (provided planned listed).keeps_sound) Graph.keeps_prune
      ⟨graph, journal⟩ sound
    rw [concluded] at kept ⊢
    rw [left]
    refine ⟨?_, stretch.handed, fun application applied => ?_, _, soundSwept.prune_eq.1⟩
    · have ending := stretch.ending
      generalize applied : pipeline.applications ⟨graph, journal⟩ = applications at ending
      -- The applications all survived, or the last one names the pass, the node and the cause.
      cases ending with
      | passed survived => exact .finished (applied ▸ survived) kept
      | @aborted others last cause after survived failed grave =>
        have member : last ∈ pipeline.applications ⟨graph, journal⟩ := by
          simp [applied]
        obtain ⟨planned, listed, own⟩ :=
          Pipeline.mem_of_scheduled ordered (stretch.member last member)
        obtain ⟨node, found⟩ := (stretch.proper last member).live
        rw [Application.name, Graph.displayName_of_node found, ← own]
        exact .aborted applied survived listed own.symm found failed grave kept
    · have proper := stretch.proper application applied
      exact ⟨proper, proper.sound_after.check_eq_ok⟩

section Failing

/-- A change that only claims to be one, a failure to report, and one that ends the run. -/
def failing : Pipeline Rat :=
  (((Pipeline.empty.withPass (visiting "claim" .multiply .claim)).withPass
    (visiting "decline" .identity .failRange)).withPass
      (visiting "fail" .quantizeRange .failInternal)).withChecks true

/-- The pipeline of the example has provided passes only. -/
theorem failing_provided : ∀ planned ∈ failing.passes, planned.pass.Provided := by
  intro planned listed
  simp only [failing, Pipeline.withChecks, Pipeline.withPass, Pipeline.withPassAt, Pipeline.empty,
    List.nil_append, List.cons_append, List.mem_cons, List.not_mem_nil, or_false] at listed
  rcases listed with rfl | rfl | rfl <;> exact .scripted _

/-- The run goes on after the first two and ends with the third, which it names.
What they did stays done. -/
theorem failing_concludes : ∃ after,
    failing.runFrom ⟨scaled, Journal.fresh⟩ =
        (.error (.passFailed "fail" "q" (.internal (.stated "scripted"))), after) ∧
      failing.Concludes ⟨scaled, Journal.fresh⟩ (failing.runFrom ⟨scaled, Journal.fresh⟩) ∧
      (failing.applications ⟨scaled, Journal.fresh⟩).map Application.name = ["m", "i", "q"] := by
  have ran : (failing.runFrom ⟨scaled, Journal.fresh⟩).1 =
      .error (.passFailed "fail" "q" (.internal (.stated "scripted"))) := by decide +kernel
  have applied : (failing.applications ⟨scaled, Journal.fresh⟩).map Application.name =
      ["m", "i", "q"] := by decide +kernel
  exact ⟨_, eq_of_answer ran,
    (run_concludes ⟨scaledSession, rfl⟩ failing_provided Journal.fresh).1, applied⟩

end Failing

end RangeFold
