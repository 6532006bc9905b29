import RangeFold.Proofs.Pipeline.Log

/-!
# Applications of passes

Between its start and the final pruning, a run changes the graph only by applying passes at nodes.
What it applies, and in which state, is listed here along the recursion of the run; the list breaks
off where the run does.

Every stretch of a run is then told by its list. The graph goes from one application to the next.
The reports of failures that the run survives are entered in their order, each unless there is one
for its pass and node already. A stretch breaks off exactly at an application that fails for good,
in the state which this leaves.
-/

namespace RangeFold

open Attempt

variable {α β γ : Type}

/-- A pass that is let change the graph at a node, and the state in which it is. -/
structure Application (α : Type) where
  pass : Pass α
  id : NodeId
  before : Progress α

namespace Application

variable (application : Application α)

/-- The answer of the pass and the state that it leaves. -/
def outcome : Except Failure Bool × Progress α :=
  application.pass.apply application.id application.before

/-- The name of the node, as it is before the pass is applied. -/
def name : String := application.before.graph.displayName application.id

/-- The pass fails in a way that the run survives. -/
def Declines : Prop :=
  ∃ failure, application.outcome.1 = .error failure ∧ failure.isRecoverable = true

/-- The pass fails in a way that ends the run. -/
def Aborts : Prop :=
  ∃ failure, application.outcome.1 = .error failure ∧ failure.isRecoverable = false

/-- What there is to report of a pass that declines. -/
def report : Option Diagnostic :=
  match application.outcome.1 with
  | .ok _ => none
  | .error failure =>
    if failure.isRecoverable then
      some ⟨application.pass.id, application.name, failure.message⟩
    else none

variable {application}

/-- A pass that answers is not reported on, whether or not it changed anything. -/
theorem report_of_answer {changed : Bool} (answered : application.outcome.1 = .ok changed) :
    application.report = none := by
  rw [report, answered]

/-- A recoverable failure is reported with the pass, the name of the node and the
text of the failure. -/
theorem report_of_declined {failure : Failure} (failed : application.outcome.1 = .error failure)
    (recoverable : failure.isRecoverable = true) :
    application.report = some ⟨application.pass.id, application.name, failure.message⟩ := by
  rw [report, failed]
  exact if_pos recoverable

/-- A grave failure is no report: it is the outcome of the run. -/
theorem report_of_aborted {failure : Failure} (failed : application.outcome.1 = .error failure)
    (grave : failure.isRecoverable = false) : application.report = none := by
  rw [report, failed]
  exact if_neg (by simp [grave])

/-- An application declines exactly if there is something to report of it. -/
theorem declines_iff : application.Declines ↔ ∃ entry, application.report = some entry := by
  constructor
  · rintro ⟨failure, failed, recoverable⟩
    exact ⟨_, report_of_declined failed recoverable⟩
  · rintro ⟨entry, reported⟩
    cases outcome : application.outcome.1 with
    | ok changed => simp [report_of_answer outcome] at reported
    | error failure =>
      cases recoverable : failure.isRecoverable with
      | true => exact ⟨failure, outcome, recoverable⟩
      | false => simp [report_of_aborted outcome recoverable] at reported

/-- An application that answers does not end the run. -/
theorem not_aborts_of_answer {changed : Bool} (answered : application.outcome.1 = .ok changed) :
    ¬ application.Aborts := by
  rintro ⟨failure, failed, -⟩
  rw [answered] at failed
  cases failed

/-- An application that declines does not end the run. The failure decides which of
the two it is. -/
theorem Declines.not_aborts (declines : application.Declines) : ¬ application.Aborts := by
  obtain ⟨failure, failed, recoverable⟩ := declines
  rintro ⟨other, failedToo, grave⟩
  obtain rfl := Except.error.inj (failed.symm.trans failedToo)
  simp [recoverable] at grave

end Application

/-- What a list tells of the state after a step, if the step succeeds. -/
def Attempt.afterwards {σ : Type} (first : Attempt σ β) (next : β → σ → List γ) (state : σ) :
    List γ :=
  match first state with
  | (.ok value, after) => next value after
  | (.error _, _) => []

namespace Pipeline

/-- The pass is applied at a node that is live, not visited and admitted. -/
def visitApplications (pass : Pass α) (id : NodeId) (progress : Progress α) :
    List (Application α) :=
  if !progress.graph.contains id || progress.journal.isVisited id then []
  else if pass.admits progress.graph id then
    [⟨pass, id, ⟨progress.graph, progress.journal.markVisited id⟩⟩]
  else []

variable [Arithmetic α]

/-- The applications in visits to a list of nodes. A visit that ends the run is the
last to contribute. -/
def visitEachApplications (checks : Bool) (pass : Pass α) :
    List NodeId → Progress α → List (Application α)
  | [], _ => []
  | id :: rest, progress =>
    visitApplications pass id progress ++
      (visit checks pass id).afterwards (fun _ => visitEachApplications checks pass rest) progress

/-- The applications in a turn of a pass, over the order that the graph has when the
pass begins. -/
def passApplications (checks : Bool) (sweep : Nat) (pass : Pass α) (progress : Progress α) :
    List (Application α) :=
  if pass.isApplicable progress.graph then
    visitEachApplications checks pass progress.graph.reverseOrder
      ⟨progress.graph, progress.journal.beginPass pass.id sweep⟩
  else []

/-- The applications in a sweep, pass after pass. -/
def sweepApplications (checks : Bool) (sweep : Nat) :
    List (Pass α) → Progress α → List (Application α)
  | [], _ => []
  | pass :: rest, progress =>
    passApplications checks sweep pass progress ++
      (runPass checks sweep pass).afterwards (fun _ => sweepApplications checks sweep rest) progress

/-- The applications in the sweeps that remain, up to the first without changes. -/
def sweepsApplications (checks : Bool) (passes : List (Pass α)) :
    Nat → Nat → Progress α → List (Application α)
  | 0, _, _ => []
  | remaining + 1, done, progress =>
    sweepApplications checks (done + 1) passes progress ++
      (runSweep checks (done + 1) passes).afterwards
        (fun made after =>
          if made.all fun (_, count) => count == 0 then []
          else sweepsApplications checks passes remaining (done + 1) after) progress

/-- The applications of a run, in their order. -/
def applications (pipeline : Pipeline α) (progress : Progress α) : List (Application α) :=
  match pipeline.scheduled with
  | .ok passes => sweepsApplications pipeline.checks passes pipeline.maxSweeps 0 progress
  | .error _ => []

end Pipeline

/-- What has been reported stays, and a report is added if its pass and node have none. -/
def Diagnostic.enter (known : List Diagnostic) (entry : Diagnostic) : List Diagnostic :=
  if known.any fun other => other.pass == entry.pass && other.node == entry.node then known
  else known ++ [entry]

/-- Adding a diagnostic enters it unless the pass has reported on the node already. -/
theorem Journal.diagnostics_addDiagnostic (journal : Journal) (pass node message : String) :
    (journal.addDiagnostic pass node message).diagnostics =
      Diagnostic.enter journal.diagnostics ⟨pass, node, message⟩ := by
  unfold addDiagnostic Diagnostic.enter isReported
  split <;> rfl

/-- Marking a node adds no diagnostic. -/
@[simp] theorem Journal.diagnostics_markVisited (journal : Journal) (id : NodeId) :
    (journal.markVisited id).diagnostics = journal.diagnostics := by
  unfold markVisited
  split <;> rfl

/-- Recording a change adds no diagnostic. -/
@[simp] theorem Journal.diagnostics_recordChange (journal : Journal) (node : String) :
    (journal.recordChange node).diagnostics = journal.diagnostics := by
  unfold recordChange
  split <;> rfl

/-- A pass that only takes notes leaves the diagnostics to the run. -/
theorem Progress.Noted.diagnostics_eq {journal : Journal} {progress : Progress α}
    (noted : Progress.Noted journal progress) :
    progress.journal.diagnostics = journal.diagnostics := by
  obtain ⟨notes, same⟩ := noted
  rw [same]

/-- The graph goes from one application to the next. -/
def Handed (before : Graph α) : List (Application α) → Graph α → Prop
  | [], after => after = before
  | application :: rest, after =>
    application.before.graph = before ∧ Handed application.outcome.2.graph rest after

/-- Two stretches of applications that hand the graph on are one stretch. -/
theorem Handed.append {before middle after : Graph α} {first others : List (Application α)}
    (handed : Handed before first middle) (handedToo : Handed middle others after) :
    Handed before (first ++ others) after := by
  induction first generalizing before with
  | nil => exact (show middle = before from handed) ▸ handedToo
  | cons application rest inductionHypothesis =>
    exact ⟨handed.1, inductionHypothesis handed.2⟩

/-- How applications end: none of them fails for good, or the last one alone does, with the state
and on the account of the pass and the node that it is applied at. -/
inductive Ending : List (Application α) → Except Failure β × Progress α → Prop where
  | passed {applications : List (Application α)} {value : β} {after : Progress α}
      (survived : ∀ application ∈ applications, ¬ application.Aborts) :
      Ending applications (.ok value, after)
  | aborted {others : List (Application α)} {last : Application α} {cause : Failure}
      {after : Progress α} (survived : ∀ application ∈ others, ¬ application.Aborts)
      (failed : last.outcome = (.error cause, after)) (grave : cause.isRecoverable = false) :
      Ending (others ++ [last]) (.error (.passFailed last.pass.id last.name cause), after)

/-- Applications that do not end the run can be put in front of how it ends. -/
theorem Ending.prepend {first others : List (Application α)}
    {outcome : Except Failure β × Progress α}
    (survived : ∀ application ∈ first, ¬ application.Aborts) (ending : Ending others outcome) :
    Ending (first ++ others) outcome := by
  cases ending with
  | passed survivedToo => exact .passed (List.forall_mem_append.mpr ⟨survived, survivedToo⟩)
  | aborted survivedToo failed grave =>
    rw [← List.append_assoc]
    exact .aborted (List.forall_mem_append.mpr ⟨survived, survivedToo⟩) failed grave

variable [Arithmetic α]

/-- An application of a provided pass at a live node that it admits, in a sound graph. -/
structure Application.Proper (application : Application α) : Prop where
  provided : application.pass.Provided
  sound : application.before.graph.Sound
  live : ∃ node, application.before.graph.node application.id = some node
  admitted : application.pass.admits application.before.graph application.id = true

/-- Whatever comes of it, an application leaves the graph sound. Failing halfway is
no exception, as passes edit through the public calls. -/
theorem Application.Proper.sound_after {application : Application α} (proper : application.Proper) :
    application.outcome.2.graph.Sound :=
  proper.provided.keeps_sound _ _ proper.sound proper.admitted

/-- A part of a run over some passes, from a state to an outcome, with its applications. -/
structure Stretch (passes : List (Pass α)) (before : Progress α)
    (applications : List (Application α)) (outcome : Except Failure β × Progress α) : Prop where
  member : ∀ application ∈ applications, application.pass ∈ passes
  proper : ∀ application ∈ applications, application.Proper
  sound : outcome.2.graph.Sound
  handed : Handed before.graph applications outcome.2.graph
  reported : outcome.2.journal.diagnostics =
    (applications.filterMap Application.report).foldl Diagnostic.enter before.journal.diagnostics
  ending : Ending applications outcome

namespace Stretch

variable {passes : List (Pass α)} {before after : Progress α}

/-- A part without applications. The run may read and take notes in it. -/
theorem nil {value : β} (sound : before.graph.Sound) (same : after.graph = before.graph)
    (silent : after.journal.diagnostics = before.journal.diagnostics) :
    Stretch passes before [] (.ok value, after) where
  member := by simp
  proper := by simp
  sound := same ▸ sound
  handed := same
  reported := silent
  ending := .passed (by simp)

/-- Notes between applications belong to neither of them. They can be counted to the
stretch that follows. -/
theorem of_noted {noted : Progress α} {applications : List (Application α)}
    {outcome : Except Failure β × Progress α} (same : noted.graph = before.graph)
    (silent : noted.journal.diagnostics = before.journal.diagnostics)
    (stretch : Stretch passes noted applications outcome) :
    Stretch passes before applications outcome where
  member := stretch.member
  proper := stretch.proper
  sound := stretch.sound
  handed := same ▸ stretch.handed
  reported := silent ▸ stretch.reported
  ending := stretch.ending

/-- A stretch over some passes is one over more of them. -/
theorem mono {wider : List (Pass α)} {applications : List (Application α)}
    {outcome : Except Failure β × Progress α} (within : passes ⊆ wider)
    (stretch : Stretch passes before applications outcome) :
    Stretch wider before applications outcome :=
  { stretch with member := fun application listed => within (stretch.member application listed) }

/-- A part and, if it succeeds, the next one. If the first one fails, its failure is
that of both. -/
theorem bind {first : Attempt (Progress α) β} {next : β → Attempt (Progress α) γ}
    {applications : List (Application α)} {more : β → Progress α → List (Application α)}
    (stretch : Stretch passes before applications (first before))
    (stretchNext : ∀ value middle, middle.graph.Sound →
      Stretch passes middle (more value middle) (next value middle)) :
    Stretch passes before (applications ++ first.afterwards more before)
      ((first >>= next) before) := by
  rcases outcome : first before with ⟨failure | value, middle⟩ <;> rw [outcome] at stretch
  · rw [afterwards, outcome, List.append_nil, bind_of_error outcome]
    refine { stretch with ending := ?_ }
    cases stretch.ending with
    | aborted survived failed grave => exact .aborted survived failed grave
  · rw [afterwards, outcome, bind_of_ok outcome]
    have others := stretchNext value middle stretch.sound
    cases stretch.ending with
    | passed survived => exact {
        member := List.forall_mem_append.mpr ⟨stretch.member, others.member⟩
        proper := List.forall_mem_append.mpr ⟨stretch.proper, others.proper⟩
        sound := others.sound
        handed := stretch.handed.append others.handed
        reported := by
          rw [others.reported, stretch.reported, List.filterMap_append, List.foldl_append]
        ending := others.ending.prepend survived }

/-- A part after which the run only puts the answer together. Nothing can go wrong
in this. -/
theorem map {first : Attempt (Progress α) β} {put : β → γ} {applications : List (Application α)}
    (stretch : Stretch passes before applications (first before)) :
    Stretch passes before applications ((first >>= fun value => pure (put value)) before) := by
  have quiet : Stretch passes before (applications ++ first.afterwards (fun _ _ => []) before)
      ((first >>= fun value => pure (put value)) before) :=
    stretch.bind fun value middle sound => .nil sound rfl rfl
  have none : first.afterwards (fun _ _ => ([] : List (Application α))) before = [] := by
    rw [afterwards]
    split <;> rfl
  rwa [none, List.append_nil] at quiet

end Stretch

namespace Pipeline

variable {progress : Progress α}

section Pass

variable {pass : Pass α} (provided : pass.Provided)

include provided

/-- Applying a pass at a live node it admits is a stretch of that one application,
with any of the outcomes: a change, an answer without change, a decline, an abort. -/
theorem applyAt_stretch (checks : Bool) {id : NodeId} (sound : progress.graph.Sound)
    (live : ∃ node, progress.graph.node id = some node)
    (admitted : pass.admits progress.graph id = true) :
    Stretch [pass] progress [⟨pass, id, progress⟩] (applyAt checks pass id progress) := by
  let application : Application α := ⟨pass, id, progress⟩
  have proper : application.Proper := ⟨provided, sound, live, admitted⟩
  have noted := provided.discreet id progress
  have soundAfter := proper.sound_after
  -- Whatever the answer, the run leaves the graph as the pass does.
  have stretch {outcome : Except Failure Nat × Progress α}
      (same : outcome.2.graph = application.outcome.2.graph)
      (reported : outcome.2.journal.diagnostics =
        application.report.toList.foldl Diagnostic.enter progress.journal.diagnostics)
      (ending : Ending [application] outcome) : Stretch [pass] progress [application] outcome := {
    member := by simp [application]
    proper := by simpa using proper
    sound := same ▸ soundAfter
    handed := ⟨rfl, same⟩
    reported := by
      rw [reported]
      cases reporting : application.report <;> simp [reporting]
    ending := ending }
  have silent := noted.diagnostics_eq
  rcases applied : pass.apply id progress with ⟨failure | _ | _, after⟩
  all_goals
    have outcome : application.outcome = (_, after) := applied
    rw [applied] at silent
    rw [outcome] at stretch soundAfter
  · cases recoverable : failure.isRecoverable with
    | true =>
      rw [applyAt_of_reported checks applied recoverable]
      refine stretch rfl ?_ (.passed (by
        simpa using Application.Declines.not_aborts ⟨failure, by rw [outcome], recoverable⟩))
      rw [Application.report_of_declined (by rw [outcome]) recoverable]
      exact (Journal.diagnostics_addDiagnostic _ _ _ _).trans (by rw [silent]; rfl)
    | false =>
      rw [applyAt_of_failed checks applied recoverable]
      refine stretch rfl ?_ (show Ending ([] ++ [application]) _ from
        .aborted (by simp) outcome recoverable)
      rw [Application.report_of_aborted (by rw [outcome]) recoverable]
      exact silent
  · rw [applyAt_of_declined checks applied]
    refine stretch rfl ?_ (.passed (by
      simpa using Application.not_aborts_of_answer (by rw [outcome])))
    rw [Application.report_of_answer (by rw [outcome])]
    exact silent
  · rw [applyAt_of_changed checks applied soundAfter]
    refine stretch rfl ?_ (.passed (by
      simpa using Application.not_aborts_of_answer (by rw [outcome])))
    rw [Application.report_of_answer (by rw [outcome])]
    simpa using silent

/-- A visit is a stretch of at most one application: none where the node is gone,
was visited or is not admitted. -/
theorem visit_stretch (checks : Bool) (id : NodeId) (sound : progress.graph.Sound) :
    Stretch [pass] progress (visitApplications pass id progress)
      (visit checks pass id progress) := by
  rw [visit, visitApplications, read_bind]
  split
  · exact .nil sound rfl rfl
  · rename_i due
    obtain ⟨node, found⟩ : ∃ node, progress.graph.node id = some node := by
      cases found : progress.graph.node id with
      | none => simp [Graph.contains, found] at due
      | some node => exact ⟨node, rfl⟩
    let marked : Progress α := ⟨progress.graph, progress.journal.markVisited id⟩
    show Stretch [pass] progress _ ((if pass.admits progress.graph id then
      applyAt checks pass id else pure 0 : Attempt (Progress α) Nat) marked)
    have soundMarked : marked.graph.Sound := sound
    refine .of_noted (show marked.graph = progress.graph from rfl) (by simp [marked]) ?_
    split
    · rename_i admitted
      exact applyAt_stretch provided checks soundMarked ⟨node, found⟩ admitted
    · exact .nil sound rfl rfl

/-- Visits to a list of nodes are a stretch, by induction on the nodes that are
left. -/
theorem visitEach_stretch (checks : Bool) (ids : List NodeId) (sound : progress.graph.Sound) :
    Stretch [pass] progress (visitEachApplications checks pass ids progress)
      (visitEach checks pass ids progress) := by
  induction ids generalizing progress with
  | nil => exact .nil sound rfl rfl
  | cons id rest inductionHypothesis =>
    exact (visit_stretch provided checks id sound).bind fun _ _ soundAfter =>
      (inductionHypothesis soundAfter).map

/-- A turn of a pass is a stretch. Asking for the order cannot fail on a sound
graph. -/
theorem runPass_stretch (checks : Bool) (sweep : Nat) (sound : progress.graph.Sound) :
    Stretch [pass] progress (passApplications checks sweep pass progress)
      (runPass checks sweep pass progress) := by
  rw [runPass, passApplications, Progress.currentGraph_bind]
  split
  · let begun : Progress α := ⟨progress.graph, progress.journal.beginPass pass.id sweep⟩
    have soundBegun : begun.graph.Sound := sound
    exact .of_noted (show begun.graph = progress.graph from rfl) rfl
      (visitEach_stretch provided checks _ soundBegun)
  · exact .nil sound rfl rfl

end Pass

section Passes

variable {passes : List (Pass α)} (provided : ∀ pass ∈ passes, pass.Provided)

include provided

/-- A sweep is a stretch, by induction on the passes that are left. -/
theorem runSweep_stretch (checks : Bool) (sweep : Nat) (sound : progress.graph.Sound) :
    Stretch passes progress (sweepApplications checks sweep passes progress)
      (runSweep checks sweep passes progress) := by
  induction passes generalizing progress with
  | nil => exact .nil sound rfl rfl
  | cons pass rest inductionHypothesis =>
    obtain ⟨providedPass, providedRest⟩ := List.forall_mem_cons.mp provided
    exact ((runPass_stretch providedPass checks sweep sound).mono (by simp)).bind
      fun _ _ soundAfter =>
        ((inductionHypothesis providedRest soundAfter).map).mono (List.subset_cons_self pass rest)

/-- The sweeps of a run are a stretch, by induction on the sweeps that remain. The
applications stop where a sweep made no change. -/
theorem runSweeps_stretch (checks : Bool) (remaining done : Nat) (counts : List (String × Nat))
    (sound : progress.graph.Sound) :
    Stretch passes progress (sweepsApplications checks passes remaining done progress)
      (runSweeps checks passes remaining done counts progress) := by
  induction remaining generalizing done counts progress with
  | zero => exact .nil sound rfl rfl
  | succ remaining inductionHypothesis =>
    refine (runSweep_stretch provided checks (done + 1) sound).bind fun made _ soundAfter => ?_
    dsimp only
    split
    · exact .nil soundAfter rfl rfl
    · exact inductionHypothesis _ _ soundAfter

end Passes

section Runs

variable {pipeline : Pipeline α}

/-- What a run makes of the outcome of its sweeps. -/
def concluded (pipeline : Pipeline α) (start : Progress α) :
    Except Failure SweepTotals × Progress α → Except Failure RunStats × Progress α
  | (.ok totals, swept) =>
    (.ok ⟨totals.counts, !totals.converged, totals.sweeps,
        start.graph.live - (pipeline.finish swept.graph).live,
        swept.journal.diagnostics.drop start.journal.diagnostics.length⟩,
      ⟨pipeline.finish swept.graph, swept.journal⟩)
  | (.error failure, left) => (.error failure, left)

/-- A run is its sweeps and what is concluded from them; the pruning at the end
succeeds because the graph is sound. -/
theorem runFrom_eq_concluded {passes : List (Pass α)} (ordered : pipeline.scheduled = .ok passes)
    {outcome : Except Failure SweepTotals × Progress α}
    (going : runSweeps pipeline.checks passes pipeline.maxSweeps 0
      (passes.foldl (fun counts pass => addCount pass.id 0 counts) []) progress = outcome)
    (sound : outcome.2.graph.Sound) :
    pipeline.runFrom progress = pipeline.concluded progress outcome := by
  rcases outcome with ⟨failure | totals, left⟩
  · rw [runFrom, lift_bind_of_ok ordered, read_bind, bind_of_error going]
    rfl
  · exact runFrom_eq ordered going sound

omit [Arithmetic α] in
/-- Without pruning a run leaves the graph as the sweeps do. The statistics are all
that is added. -/
theorem graph_concluded (start : Progress α) (outcome : Except Failure SweepTotals × Progress α) :
    ((pipeline.withPruning false).concluded start outcome).2.graph = outcome.2.graph := by
  rcases outcome with ⟨failure | totals, left⟩ <;> rfl

/-- A run that has an order is a stretch over its passes and what it makes of the
outcome. From this each claim about the applications of a run is read off. -/
theorem runFrom_stretch {passes : List (Pass α)} (ordered : pipeline.scheduled = .ok passes)
    (provided : ∀ planned ∈ pipeline.passes, planned.pass.Provided)
    (sound : progress.graph.Sound) :
    ∃ outcome, Stretch passes progress (pipeline.applications progress) outcome ∧
      pipeline.runFrom progress = pipeline.concluded progress outcome ∧
      pipeline.swept progress = outcome.2.graph := by
  have providedPasses (pass : Pass α) (member : pass ∈ passes) : pass.Provided := by
    obtain ⟨planned, listed, rfl⟩ := mem_of_scheduled ordered member
    exact provided planned listed
  have stretch := runSweeps_stretch providedPasses pipeline.checks pipeline.maxSweeps 0
    (passes.foldl (fun counts pass => addCount pass.id 0 counts) []) sound
  refine ⟨_, by rwa [applications, ordered], runFrom_eq_concluded ordered rfl stretch.sound, ?_⟩
  have unpruned : (pipeline.withPruning false).scheduled = .ok passes := ordered
  rw [swept, runFrom_eq_concluded unpruned rfl stretch.sound, graph_concluded]
  rfl

end Runs

end Pipeline

end RangeFold
