import RangeFold.Graph.Pruning
import RangeFold.Graph.Soundness
import RangeFold.Pipeline.Schedule
import RangeFold.Pass.Basic

/-!
# Pipelines

A pipeline runs its passes in schedule order, sweep after sweep, until a sweep makes
no change or the sweep limit is reached. Each pass visits, once per sweep, the nodes
that are live when it starts, consumers first, as far as they are still live when
their turn comes.

A recoverable failure of a pass is reported and the run goes on. Any other failure
ends the run at once; what was changed before stays changed.
-/

namespace RangeFold

variable {α : Type}

/-- A pass with the priority it has in a pipeline. -/
structure PlannedPass (α : Type) where
  pass : Pass α
  priority : Int

/-- Passes with their priorities, a limit on the sweeps, and whether a run prunes at
its end and checks the graph after every change. -/
structure Pipeline (α : Type) where
  passes : List (PlannedPass α)
  maxSweeps : Nat
  prunes : Bool
  checks : Bool

/-- What a run did. -/
structure RunStats where
  passesApplied : List (String × Nat)
  didNotConverge : Bool
  totalSweeps : Nat
  nodesRemoved : Nat
  diagnostics : List Diagnostic
deriving DecidableEq

/-- The number of changes by all passes. -/
def RunStats.totalChanges (stats : RunStats) : Nat :=
  stats.passesApplied.foldr (fun (_, count) total => count + total) 0

/-- The sweep limit of a pipeline for which none is stated. -/
def defaultMaxSweeps : Nat := 10

namespace Pipeline

/-- No passes, up to ten sweeps, pruning at the end and no checks in between. -/
def empty : Pipeline α := ⟨[], defaultMaxSweeps, true, false⟩

/-- Add a pass at a priority of its own in this pipeline. -/
def withPassAt (pipeline : Pipeline α) (pass : Pass α) (priority : Int) : Pipeline α :=
  { pipeline with passes := pipeline.passes ++ [⟨pass, priority⟩] }

/-- Add a pass at its usual priority. -/
def withPass (pipeline : Pipeline α) (pass : Pass α) : Pipeline α :=
  pipeline.withPassAt pass pass.priority

/-- Limit the sweeps; there is always at least one. -/
def withMaxSweeps (pipeline : Pipeline α) (limit : Nat) : Pipeline α :=
  { pipeline with maxSweeps := max limit 1 }

/-- Remove what no result depends on after the last sweep, or leave it. -/
def withPruning (pipeline : Pipeline α) (prunes : Bool) : Pipeline α :=
  { pipeline with prunes := prunes }

/-- Check the whole graph after each change, or trust the edits. -/
def withChecks (pipeline : Pipeline α) (checks : Bool) : Pipeline α :=
  { pipeline with checks := checks }

/-- The passes as the schedule sees them. -/
def entries (pipeline : Pipeline α) : List ScheduleEntry :=
  pipeline.passes.map fun planned =>
    ⟨planned.pass.id, planned.priority, planned.pass.runsAfter⟩

/-- The passes in running order. -/
def scheduled (pipeline : Pipeline α) : Except Failure (List (Pass α)) :=
  (Schedule.order pipeline.entries).map fun places =>
    places.filterMap fun place => (pipeline.passes[place]?).map PlannedPass.pass

/-- The names of the passes in running order. -/
def passOrder (pipeline : Pipeline α) : Except Failure (List String) :=
  pipeline.scheduled.map fun passes => passes.map Pass.id

/-- Check the graph after a change, on the account of the pass. -/
def checkAfter [Arithmetic α] (pass node : String) : Attempt (Progress α) Unit := do
  let graph ← Progress.currentGraph
  match graph.check with
  | .ok () => return ()
  | .error failure => Attempt.fail (.passFailed pass node failure)

/-- What follows a change that failed: a report if that is enough, otherwise the end of
the run. -/
def declined (pass node : String) (failure : Failure) : Attempt (Progress α) Bool :=
  if failure.isRecoverable then do
    Progress.note fun journal => journal.addDiagnostic pass node failure.message
    return false
  else Attempt.fail (.passFailed pass node failure)

/-- Let a pass change the graph at a node it admits, and record what came of it. Answers
with the number of changes, 0 or 1. The node is named as it was before. -/
def applyAt [Arithmetic α] (checks : Bool) (pass : Pass α) (id : NodeId) :
    Attempt (Progress α) Nat := do
  let graph ← Progress.currentGraph
  let name := graph.displayName id
  let changed ← (pass.apply id).orElse (declined pass.id name)
  if changed then
    if checks then checkAfter pass.id name
    Progress.note fun journal => journal.recordChange name
    return 1
  else return 0

/-- Visit a node, unless it is gone, has been visited or is not admitted. -/
def visit [Arithmetic α] (checks : Bool) (pass : Pass α) (id : NodeId) :
    Attempt (Progress α) Nat := do
  let progress ← Attempt.read
  if !progress.graph.contains id || progress.journal.isVisited id then return 0
  else
    Progress.note fun journal => journal.markVisited id
    if pass.admits progress.graph id then applyAt checks pass id else return 0

/-- Visit nodes in turn and add up the changes. -/
def visitEach [Arithmetic α] (checks : Bool) (pass : Pass α) :
    List NodeId → Attempt (Progress α) Nat
  | [] => return 0
  | id :: rest => do
    let made ← visit checks pass id
    let more ← visitEach checks pass rest
    return made + more

/-- One pass of one sweep. A pass that is not applicable leaves no trace, not even in
the journal. -/
def runPass [Arithmetic α] (checks : Bool) (sweep : Nat) (pass : Pass α) :
    Attempt (Progress α) Nat := do
  let graph ← Progress.currentGraph
  if pass.isApplicable graph then
    Progress.note fun journal => journal.beginPass pass.id sweep
    visitEach checks pass graph.reverseOrder
  else return 0

/-- Add to the count of a name; a new name comes last. -/
def addCount (id : String) (count : Nat) : List (String × Nat) → List (String × Nat)
  | [] => [(id, count)]
  | (key, old) :: rest =>
    if key = id then (key, old + count) :: rest else (key, old) :: addCount id count rest

/-- All passes of one sweep, each with its number of changes. -/
def runSweep [Arithmetic α] (checks : Bool) (sweep : Nat) :
    List (Pass α) → Attempt (Progress α) (List (String × Nat))
  | [] => return []
  | pass :: rest => do
    let made ← runPass checks sweep pass
    let others ← runSweep checks sweep rest
    return (pass.id, made) :: others

/-- What the sweeps of a run add up to. -/
structure SweepTotals where
  counts : List (String × Nat)
  sweeps : Nat
  converged : Bool

/-- Sweep until nothing is changed, at most a number of times. -/
def runSweeps [Arithmetic α] (checks : Bool) (passes : List (Pass α)) :
    Nat → Nat → List (String × Nat) → Attempt (Progress α) SweepTotals
  | 0, done, counts => return ⟨counts, done, false⟩
  | remaining + 1, done, counts => do
    let made ← runSweep checks (done + 1) passes
    let counts := made.foldl (fun counts (id, count) => addCount id count counts) counts
    if made.all fun (_, count) => count == 0 then return ⟨counts, done + 1, true⟩
    else runSweeps checks passes remaining (done + 1) counts

/-- Run a pipeline on a graph, continuing a journal. A name that several passes carry is
counted once, at the place of the first. Only reports made by this run are returned. -/
def runFrom [Arithmetic α] (pipeline : Pipeline α) : Attempt (Progress α) RunStats := do
  let passes ← Attempt.lift pipeline.scheduled
  let start ← Attempt.read
  let counts := passes.foldl (fun counts pass => addCount pass.id 0 counts) []
  let totals ← runSweeps pipeline.checks passes pipeline.maxSweeps 0 counts
  if pipeline.prunes then
    let _ ← Progress.onGraph Graph.prune
  let final ← Attempt.read
  return {
    passesApplied := totals.counts
    didNotConverge := !totals.converged
    totalSweeps := totals.sweeps
    nodesRemoved := start.graph.live - final.graph.live
    diagnostics := final.journal.diagnostics.drop start.journal.diagnostics.length }

/-- Run a pipeline on a graph with a journal of its own. -/
def run [Arithmetic α] (pipeline : Pipeline α) : Attempt (Graph α) RunStats := fun graph =>
  let (outcome, progress) := pipeline.runFrom ⟨graph, Journal.fresh⟩
  (outcome, progress.graph)

end Pipeline

end RangeFold
