import RangeFold.Proofs.Bookkeeping
import RangeFold.Proofs.Pipeline.Applications

/-!
# What a run reports of declined changes

A run returns the reports that it has added to the journal. One is added for each pass and node
name at which a pass declined, with the message of the first time, unless the journal has one for
them from before. So nothing is lost from what a run returns exactly if the journal had no report
of anything that the run declines, as a fresh one has not.
-/

namespace RangeFold

open Attempt

variable {α : Type}

namespace Diagnostic

/-- The pass and the node name that a report is for. -/
def place (entry : Diagnostic) : String × String := (entry.pass, entry.node)

/-- Diagnostics are in one place if they name the same pass and the same node. -/
theorem place_eq_iff {entry other : Diagnostic} :
    entry.place = other.place ↔ entry.pass = other.pass ∧ entry.node = other.node := Prod.mk_inj

/-- The search through the history looks for a diagnostic in the same place,
whichever run it came from. -/
theorem place_mem_iff {known : List Diagnostic} {entry : Diagnostic} :
    (known.any fun other => other.pass == entry.pass && other.node == entry.node) = true ↔
      entry.place ∈ known.map place := by
  simp only [List.any_eq_true, Bool.and_eq_true, beq_iff_eq, List.mem_map, place_eq_iff]

/-- A diagnostic is entered at the end unless its place is taken. -/
theorem enter_eq (known : List Diagnostic) (entry : Diagnostic) :
    enter known entry =
      if entry.place ∈ known.map place then known else known ++ [entry] := by
  unfold enter
  simp only [place_mem_iff]

/-- Entering reports in turn adds, for each place that had none, the first of them.
They stand in the order in which their places first came up. -/
theorem enter_each (known reports : List Diagnostic) :
    ∃ added, reports.foldl enter known = known ++ added ∧ (added.map place).Nodup ∧
      ∀ entry, entry ∈ added ↔ entry.place ∉ known.map place ∧
        (reports.find? fun other => other.place = entry.place) = some entry := by
  induction reports generalizing known with
  | nil => exact ⟨[], by simp, by simp, by simp⟩
  | cons report rest inductionHypothesis =>
    rw [List.foldl_cons, enter_eq]
    by_cases old : report.place ∈ known.map place
    · rw [if_pos old]
      obtain ⟨added, entered, once, members⟩ := inductionHypothesis known
      refine ⟨added, entered, once, fun entry => (members entry).trans ?_⟩
      refine and_congr_right fun new => ?_
      have apart : report.place ≠ entry.place := fun same => new (same ▸ old)
      rw [List.find?_cons_of_neg (by simpa using apart)]
    · rw [if_neg old]
      obtain ⟨added, entered, once, members⟩ := inductionHypothesis (known ++ [report])
      refine ⟨report :: added, by rw [entered, List.append_assoc]; rfl, ?_, fun entry => ?_⟩
      · refine List.nodup_cons.mpr ⟨fun again => ?_, once⟩
        obtain ⟨entry, member, same⟩ := List.mem_map.mp again
        exact ((members entry).mp member).1 (by simp [same])
      · rw [List.mem_cons, members, List.map_append, List.mem_append]
        by_cases same : report.place = entry.place
        · rw [List.find?_cons_of_pos (by simpa using same)]
          simp [← same, old, eq_comm]
        · rw [List.find?_cons_of_neg (by simpa using same)]
          have apart : entry ≠ report := fun equal => same (equal ▸ rfl)
          simp [apart, Ne.symm same]

end Diagnostic

/-- A pass has reported on a node if the place of the two is taken. -/
theorem Journal.isReported_iff {journal : Journal} {entry : Diagnostic} :
    journal.isReported entry.pass entry.node = true ↔
      entry.place ∈ journal.diagnostics.map Diagnostic.place := Diagnostic.place_mem_iff

/-- A report has the place of its application. -/
theorem Application.place_of_report {application : Application α} {entry : Diagnostic}
    (reported : application.report = some entry) :
    entry.place = (application.pass.id, application.name) := by
  obtain ⟨failure, failed, recoverable⟩ := declines_iff.mpr ⟨entry, reported⟩
  rw [report_of_declined failed recoverable] at reported
  exact (Option.some.inj reported) ▸ rfl

/-- A run reports what it declines, for each pass and node name the first time, unless the journal
that it continues has a report for them. -/
structure RunStats.Reports (journal : Journal) (applications : List (Application α))
    (stats : RunStats) : Prop where
  once : (stats.diagnostics.map Diagnostic.place).Nodup
  first : ∀ entry, entry ∈ stats.diagnostics ↔
    journal.isReported entry.pass entry.node = false ∧
      ((applications.filterMap Application.report).find? fun other => other.place = entry.place) =
        some entry

/-- The reports have one entry for each pass and node name at which a pass declined, and no
other. -/
structure RunStats.ReportsAll (applications : List (Application α)) (stats : RunStats) : Prop where
  once : (stats.diagnostics.map Diagnostic.place).Nodup
  exactly : ∀ place, place ∈ stats.diagnostics.map Diagnostic.place ↔
    ∃ application ∈ applications, application.Declines ∧
      (application.pass.id, application.name) = place

namespace RunStats.Reports

variable {journal : Journal} {applications : List (Application α)} {stats : RunStats}

/-- A pass and a node name are reported if a pass declined there and nothing was
known of it. Names are compared and not nodes, since that is what a report keeps. -/
theorem place_mem_iff (reports : stats.Reports journal applications) (place : String × String) :
    place ∈ stats.diagnostics.map Diagnostic.place ↔
      journal.isReported place.1 place.2 = false ∧
        ∃ application ∈ applications, application.Declines ∧
          (application.pass.id, application.name) = place := by
  constructor
  · intro member
    obtain ⟨entry, listed, rfl⟩ := List.mem_map.mp member
    obtain ⟨new, found⟩ := (reports.first entry).mp listed
    obtain ⟨application, applied, reported⟩ :=
      List.mem_filterMap.mp (List.mem_of_find?_eq_some found)
    exact ⟨new, application, applied, Application.declines_iff.mpr ⟨entry, reported⟩,
      (Application.place_of_report reported).symm⟩
  · rintro ⟨new, application, applied, declines, rfl⟩
    obtain ⟨entry, reported⟩ := Application.declines_iff.mp declines
    have same := Application.place_of_report reported
    cases found : (applications.filterMap Application.report).find?
        fun other => other.place = entry.place with
    | none =>
      have absent := List.find?_eq_none.mp found entry
        (List.mem_filterMap.mpr ⟨_, applied, reported⟩)
      simp at absent
    | some first =>
      have samePlace : first.place = entry.place := by simpa using List.find?_some found
      have listed : first ∈ stats.diagnostics := by
        rw [reports.first, samePlace]
        obtain ⟨samePass, sameNode⟩ := Prod.mk.inj (samePlace.trans same)
        exact ⟨by rwa [samePass, sameNode], found⟩
      exact List.mem_map.mpr ⟨first, listed, samePlace.trans same⟩

/-- Nothing is lost exactly if nothing that was declined had been reported before.
With a fresh journal nothing had been. -/
theorem all_iff (reports : stats.Reports journal applications) :
    stats.ReportsAll applications ↔ ∀ application ∈ applications, application.Declines →
      journal.isReported application.pass.id application.name = false := by
  constructor
  · intro all application applied declines
    exact ((reports.place_mem_iff _).mp
      ((all.exactly _).mpr ⟨application, applied, declines, rfl⟩)).1
  · refine fun new => ⟨reports.once, fun place => (reports.place_mem_iff place).trans ?_⟩
    refine and_iff_right_of_imp ?_
    rintro ⟨application, applied, declines, rfl⟩
    exact new application applied declines

end RunStats.Reports

variable [Arithmetic α]

/-- A run that succeeds adds its reports to the journal: the first of each pass and node name that
the journal has none for. They are one for each pass and node name at which it declined a change
exactly if the journal had been told of none of these. -/
theorem run_reports_iff {graph : Graph α} (reachable : graph.Reachable) {pipeline : Pipeline α}
    (provided : ∀ planned ∈ pipeline.passes, planned.pass.Provided) {journal : Journal}
    {stats : RunStats} {after : Progress α}
    (ran : pipeline.runFrom ⟨graph, journal⟩ = (.ok stats, after)) :
    after.journal.diagnostics = journal.diagnostics ++ stats.diagnostics ∧
      stats.Reports journal (pipeline.applications ⟨graph, journal⟩) ∧
      (stats.ReportsAll (pipeline.applications ⟨graph, journal⟩) ↔
        ∀ application ∈ pipeline.applications ⟨graph, journal⟩, application.Declines →
          journal.isReported application.pass.id application.name = false) := by
  cases ordered : pipeline.scheduled with
  | error failure =>
    rw [Pipeline.runFrom, lift_bind_of_error ordered] at ran
    cases (Prod.mk.inj ran).1
  | ok passes =>
    have sound : (⟨graph, journal⟩ : Progress α).graph.Sound := reachable.sound
    obtain ⟨⟨_ | totals, swept⟩, stretch, concluded, -⟩ :=
      Pipeline.runFrom_stretch ordered provided sound
    · cases (Prod.mk.inj (concluded.symm.trans ran)).1
    obtain ⟨same, rfl⟩ := Prod.mk.inj (concluded.symm.trans ran)
    obtain rfl := Except.ok.inj same
    obtain ⟨added, entered, once, first⟩ := Diagnostic.enter_each journal.diagnostics
      ((pipeline.applications ⟨graph, journal⟩).filterMap Application.report)
    have recorded : swept.journal.diagnostics = journal.diagnostics ++ added :=
      stretch.reported.trans entered
    have left : swept.journal.diagnostics.drop journal.diagnostics.length = added := by
      rw [recorded, List.drop_left]
    have reports : RunStats.Reports journal (pipeline.applications ⟨graph, journal⟩)
        ⟨totals.counts, !totals.converged, totals.sweeps,
          graph.live - (pipeline.finish swept.graph).live,
          swept.journal.diagnostics.drop journal.diagnostics.length⟩ := by
      refine ⟨left ▸ once, fun entry => ?_⟩
      rw [left, first, ← Journal.isReported_iff, Bool.not_eq_true]
    exact ⟨recorded.trans (by rw [left]), reports, reports.all_iff⟩

section Repeated

/-- A constant in a range of a single level. -/
def flawedSession : List (Call Rat) :=
  [.add .constant "w" [] (Attributes.empty.insert "value" (.tensor (Tensor.vector [0, 1]))),
    .add .quantizeRange "bad" [⟨0, 0⟩]
      (QuantRange.toAttributes ⟨.scalar 0, .scalar 1, .scalar 0, .scalar 1, 1⟩),
    .add .result "r" [⟨1, 0⟩] Attributes.empty]

/-- The graph that the session builds. -/
def flawed : Graph Rat := Call.performAll flawedSession Graph.empty

/-- Constants are folded and nothing else is done. -/
def foldingOnly : Pipeline Rat := Pipeline.empty.withPass (constantFolding defaultChainLimit)

/-- The pipeline of the example has provided passes only. -/
theorem foldingOnly_provided : ∀ planned ∈ foldingOnly.passes, planned.pass.Provided := by
  simpa [foldingOnly, Pipeline.empty, Pipeline.withPass, Pipeline.withPassAt] using
    Pass.Provided.folding defaultChainLimit

/-- What is reported of the range, in each sweep and each run. -/
def flaw : Diagnostic :=
  ⟨"fuse_quantization_range", "bad", "Invalid quantization levels on 'bad': 1 (must be >= 2)"⟩

/-- With a fresh journal the range is reported. Its one
sweep makes no change, so the run ends with it. -/
theorem flawed_run_reports :
    ∃ stats after, foldingOnly.runFrom ⟨flawed, Journal.fresh⟩ = (.ok stats, after) ∧
      stats.diagnostics = [flaw] ∧
      stats.ReportsAll (foldingOnly.applications ⟨flawed, Journal.fresh⟩) := by
  have ran : (foldingOnly.runFrom ⟨flawed, Journal.fresh⟩).1 =
      .ok ⟨[("fuse_quantization_range", 0)], false, 1, 0, [flaw]⟩ := by decide +kernel
  obtain ⟨-, -, all⟩ :=
    run_reports_iff ⟨flawedSession, rfl⟩ foldingOnly_provided (eq_of_answer ran)
  exact ⟨_, _, eq_of_answer ran, rfl, all.mpr fun _ _ _ => rfl⟩

/-- A second run that continues the journal declines the range again and reports
nothing. The place was taken by the report of the first run. -/
theorem flawed_second_run_silent :
    ∃ seen stats after, foldingOnly.runFrom ⟨flawed, Journal.fresh⟩ = seen ∧
      seen.2.graph.Reachable ∧ foldingOnly.runFrom seen.2 = (.ok stats, after) ∧
      (foldingOnly.applications seen.2).map Application.report = [some flaw] ∧
      stats.diagnostics = [] ∧ ¬ stats.ReportsAll (foldingOnly.applications seen.2) := by
  have ran : (foldingOnly.runFrom (foldingOnly.runFrom ⟨flawed, Journal.fresh⟩).2).1 =
      .ok ⟨[("fuse_quantization_range", 0)], false, 1, 0, []⟩ := by decide +kernel
  have applied : (foldingOnly.applications
      (foldingOnly.runFrom ⟨flawed, Journal.fresh⟩).2).map Application.report = [some flaw] := by
    decide +kernel
  have reachable : (foldingOnly.runFrom ⟨flawed, Journal.fresh⟩).2.graph.Reachable :=
    ⟨flawedSession ++ [.run foldingOnly Journal.fresh foldingOnly_provided], rfl⟩
  refine ⟨_, _, _, rfl, reachable, eq_of_answer ran, applied, rfl, fun all => ?_⟩
  obtain ⟨application, listed, reported⟩ : ∃ application ∈ foldingOnly.applications
      (foldingOnly.runFrom ⟨flawed, Journal.fresh⟩).2, application.report = some flaw :=
    List.mem_map.mp (applied ▸ List.mem_singleton_self _)
  have lost := (all.exactly _).mpr
    ⟨application, listed, Application.declines_iff.mpr ⟨flaw, reported⟩, rfl⟩
  exact absurd lost List.not_mem_nil

end Repeated

end RangeFold
