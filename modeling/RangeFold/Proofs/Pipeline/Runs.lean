import RangeFold.Pipeline.Run
import RangeFold.Proofs.Steps

/-!
# What runs keep

A run touches the graph only through its passes and through pruning. A property of the
graph that each pass keeps wherever it admits a node, and that pruning keeps, is
therefore kept by whole runs: whether a pass declines or fails, whether the run converges
and at which point it breaks off.
-/

namespace RangeFold

variable {α : Type}

/-- The property survives every change that the pass makes at a node it admits. -/
def Pass.Keeps (property : Graph α → Prop) (pass : Pass α) : Prop :=
  ∀ progress id, property progress.graph → pass.admits progress.graph id = true →
    property (pass.apply id progress).2.graph

/-- Steps of a run that keep a property of the graph. -/
def Progress.Keeps {β : Type} (property : Graph α → Prop) (step : Attempt (Progress α) β) : Prop :=
  Attempt.Keeps (fun progress => property progress.graph) step

/-- Asking for the graph hands it to the rest of the run. -/
@[simp] theorem Progress.currentGraph_bind {γ : Type} (next : Graph α → Attempt (Progress α) γ)
    (progress : Progress α) :
    (Progress.currentGraph >>= next) progress = next progress.graph progress := rfl

section Progress

variable {β : Type} {property : Graph α → Prop}

/-- A run goes on from the graph that its last step left. If the first step fails,
the graph is the one it left. -/
theorem Progress.holds_after_bind {γ : Type} {first : Attempt (Progress α) β}
    {next : β → Attempt (Progress α) γ} {progress : Progress α}
    (middle : property (first progress).2.graph)
    (keptNext : ∀ value, Progress.Keeps property (next value)) :
    property ((first >>= next) progress).2.graph :=
  @Attempt.holds_after_bind _ _ _ (fun progress : Progress α => property progress.graph) _ _ _
    middle keptNext

/-- A check keeps the property of the graph if the rest does after the check has
passed. -/
theorem Progress.holds_after_lift {γ : Type} {checked : Except Failure β}
    {next : β → Attempt (Progress α) γ} {progress : Progress α} (holds : property progress.graph)
    (passed : ∀ value, checked = .ok value → property (next value progress).2.graph) :
    property ((Attempt.lift checked >>= next) progress).2.graph :=
  @Attempt.holds_after_lift _ _ _ (fun progress : Progress α => property progress.graph) _ _ _
    holds passed

/-- After a recovery the property holds if it did where the first step stopped and
the handlers keep it. -/
theorem Progress.holds_after_orElse {first : Attempt (Progress α) β}
    {handler : Failure → Attempt (Progress α) β} {progress : Progress α}
    (middle : property (first progress).2.graph)
    (keptHandler : ∀ failure, Progress.Keeps property (handler failure)) :
    property (first.orElse handler progress).2.graph :=
  @Attempt.holds_after_orElse _ _ (fun progress : Progress α => property progress.graph) _ _ _
    middle keptHandler

/-- What a step keeps of the graph it keeps inside a run. -/
theorem Progress.keeps_onGraph {step : Attempt (Graph α) β} (kept : Attempt.Keeps property step) :
    Progress.Keeps property (Progress.onGraph step) :=
  Attempt.keeps_within (fun _ _ => rfl) kept

/-- The journal is no part of the graph. Whatever is written there keeps every
property of the graph. -/
theorem Progress.keeps_note (change : Journal → Journal) :
    Progress.Keeps property (Progress.note change : Attempt (Progress α) Unit) :=
  Attempt.keeps_update fun _ holds => holds

/-- Asking for the graph keeps every property of it. -/
theorem Progress.keeps_currentGraph :
    Progress.Keeps property (Progress.currentGraph : Attempt (Progress α) (Graph α)) :=
  Progress.keeps_onGraph Attempt.keeps_read

end Progress

namespace Pipeline

open Attempt Progress

/-- Every scheduled pass is one of the pipeline's. Scheduling puts passes in order
and makes up none. -/
theorem mem_of_scheduled {pipeline : Pipeline α} {passes : List (Pass α)}
    (scheduled : pipeline.scheduled = .ok passes) {pass : Pass α} (member : pass ∈ passes) :
    ∃ planned ∈ pipeline.passes, planned.pass = pass := by
  unfold Pipeline.scheduled at scheduled
  cases ordered : Schedule.order pipeline.entries with
  | error failure => simp [ordered, Except.map] at scheduled
  | ok places =>
    simp only [ordered, Except.map, Except.ok.injEq] at scheduled
    subst scheduled
    obtain ⟨place, _, found⟩ := List.mem_filterMap.mp member
    obtain ⟨planned, listed, same⟩ := Option.map_eq_some_iff.mp found
    exact ⟨planned, List.mem_of_getElem? listed, same⟩

variable {property : Graph α → Prop}

/-- Reporting a decline leaves the graph. -/
theorem keeps_declined (pass node : String) (failure : Failure) :
    Progress.Keeps property (declined pass node failure : Attempt (Progress α) Bool) := by
  unfold declined
  split
  · exact keeps_bind (keeps_note _) fun _ => keeps_answer false
  · exact keeps_fail _

variable [Arithmetic α]

/-- Checking the graph leaves it, whatever the check finds. -/
theorem keeps_checkAfter (pass node : String) :
    Progress.Keeps property (checkAfter pass node : Attempt (Progress α) Unit) := by
  refine keeps_bind keeps_currentGraph fun graph => ?_
  cases graph.check with
  | ok _ => exact keeps_answer ()
  | error failure => exact keeps_fail _

/-- A pass applied at a node it admits, and what the run makes of the outcome. The
check and the report that may follow do not touch the graph. -/
theorem holds_after_applyAt (checks : Bool) {pass : Pass α} (kept : pass.Keeps property)
    {progress : Progress α} {id : NodeId} (holds : property progress.graph)
    (admitted : pass.admits progress.graph id = true) :
    property (applyAt checks pass id progress).2.graph := by
  have changing : property (((pass.apply id).orElse
      (declined pass.id (progress.graph.displayName id))) progress).2.graph :=
    Progress.holds_after_orElse (kept progress id holds admitted) (keeps_declined _ _)
  rw [applyAt, Progress.currentGraph_bind]
  refine Progress.holds_after_bind changing fun changed => ?_
  · cases changed with
    | false => exact keeps_answer 0
    | true =>
      cases checks with
      | false => exact keeps_bind (keeps_note _) fun _ => keeps_answer 1
      | true =>
        exact keeps_bind (keeps_checkAfter _ _) fun _ =>
          keeps_bind (keeps_note _) fun _ => keeps_answer 1

/-- A visit keeps what the pass keeps, also where the pass fails halfway through its
edits. -/
theorem keeps_visit (checks : Bool) {pass : Pass α} (kept : pass.Keeps property) (id : NodeId) :
    Progress.Keeps property (visit checks pass id) := by
  refine keeps_read_bind fun progress holds => ?_
  split
  · exact holds
  · split
    · exact holds_after_applyAt checks kept holds ‹_›
    · exact holds

/-- Visits to a list of nodes keep what the pass keeps. -/
theorem keeps_visitEach (checks : Bool) {pass : Pass α} (kept : pass.Keeps property)
    (ids : List NodeId) : Progress.Keeps property (visitEach checks pass ids) := by
  induction ids with
  | nil => exact keeps_answer 0
  | cons id rest inductionHypothesis =>
    exact keeps_bind (keeps_visit checks kept id) fun _ =>
      keeps_bind inductionHypothesis fun _ => keeps_answer _

/-- A turn of a pass keeps what the pass keeps. -/
theorem keeps_runPass (checks : Bool) (sweep : Nat) {pass : Pass α} (kept : pass.Keeps property) :
    Progress.Keeps property (runPass checks sweep pass) := by
  refine keeps_bind keeps_currentGraph fun graph => ?_
  split
  · exact keeps_bind (keeps_note _) fun _ => keeps_visitEach checks kept _
  · exact keeps_answer 0

section Passes

variable {passes : List (Pass α)} (kept : ∀ pass ∈ passes, pass.Keeps property)

include kept

/-- A sweep keeps what each of its passes keeps. -/
theorem keeps_runSweep (checks : Bool) (sweep : Nat) :
    Progress.Keeps property (runSweep checks sweep passes) := by
  induction passes with
  | nil => exact keeps_answer []
  | cons pass rest inductionHypothesis =>
    have others := inductionHypothesis fun other member =>
      kept other (List.mem_cons_of_mem pass member)
    exact keeps_bind (keeps_runPass checks sweep (kept pass List.mem_cons_self)) fun _ =>
      keeps_bind others fun _ => keeps_answer _

/-- The sweeps of a run keep what each of its passes keeps, however many there are. -/
theorem keeps_runSweeps (checks : Bool) (remaining done : Nat) (counts : List (String × Nat)) :
    Progress.Keeps property (runSweeps checks passes remaining done counts) := by
  induction remaining generalizing done counts with
  | zero => exact keeps_answer _
  | succ remaining inductionHypothesis =>
    refine keeps_bind (keeps_runSweep kept checks (done + 1)) fun made => ?_
    split
    · exact keeps_answer _
    · exact inductionHypothesis _ _

end Passes

/-- A run keeps what its passes and pruning keep. Refused orders and refused checks
are included. -/
theorem keeps_runFrom {pipeline : Pipeline α}
    (kept : ∀ planned ∈ pipeline.passes, planned.pass.Keeps property)
    (pruned : Attempt.Keeps property (Graph.prune : Attempt (Graph α) Nat)) :
    Progress.Keeps property pipeline.runFrom := by
  intro progress holds
  cases scheduled : pipeline.scheduled with
  | error failure =>
    rw [runFrom, Attempt.lift_bind_of_error scheduled]
    exact holds
  | ok passes =>
    have keptPasses : ∀ pass ∈ passes, pass.Keeps property := by
      intro pass member
      obtain ⟨planned, listed, rfl⟩ := mem_of_scheduled scheduled member
      exact kept planned listed
    have swept := keeps_runSweeps keptPasses pipeline.checks pipeline.maxSweeps 0
      (passes.foldl (fun counts pass => addCount pass.id 0 counts) [])
    rw [runFrom, Attempt.lift_bind_of_ok scheduled, Attempt.read_bind]
    refine Progress.holds_after_bind (swept progress holds) fun totals => ?_
    split
    · exact keeps_bind (keeps_onGraph pruned) fun _ => keeps_bind keeps_read fun _ =>
        keeps_answer _
    · exact keeps_bind keeps_read fun _ => keeps_answer _

end Pipeline

end RangeFold
