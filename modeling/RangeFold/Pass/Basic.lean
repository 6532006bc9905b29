import RangeFold.Attempt
import RangeFold.Graph.Basic
import RangeFold.Pass.Journal

/-!
# Passes

A pass changes a graph at one node at a time. It has a cheap test by which a run
skips nodes, and another by which it skips the whole graph; the change itself must
not rely on either. It answers whether it changed the graph, and a pass that
declines or fails leaves the graph as it was.
-/

namespace RangeFold

/-- The state of a run. -/
structure Progress (α : Type) where
  graph : Graph α
  journal : Journal

namespace Progress

variable {α β : Type}

/-- A step on the graph alone. -/
def onGraph (step : Attempt (Graph α) β) : Attempt (Progress α) β :=
  Attempt.within Progress.graph (fun progress graph => { progress with graph := graph }) step

/-- The graph as it is now. -/
def currentGraph : Attempt (Progress α) (Graph α) := onGraph Attempt.read

/-- A change of the journal alone. -/
def note (change : Journal → Journal) : Attempt (Progress α) Unit :=
  Attempt.update fun progress => { progress with journal := change progress.journal }

end Progress

/-- A named way of changing a graph. Lower priorities run first; `runsAfter` names passes
that must run before this one where they take part. -/
structure Pass (α : Type) where
  id : String
  priority : Int
  runsAfter : List String
  isApplicable : Graph α → Bool
  admits : Graph α → NodeId → Bool
  apply : NodeId → Attempt (Progress α) Bool

end RangeFold
