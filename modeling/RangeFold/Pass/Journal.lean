import RangeFold.Graph.Reference

/-!
# The journal of a run

What a run keeps beside the graph: the pass and the sweep under way, the nodes this
pass has visited in this sweep, the changes made, the reports of declined ones and
the precision of values that a pass has snapped to levels. A journal can be
continued by a later run.
-/

namespace RangeFold

/-- A change that a pass made at a node. -/
structure Change where
  pass : String
  node : String
  sweep : Nat
deriving DecidableEq

/-- A change that a pass declined at a node. -/
structure Diagnostic where
  pass : String
  node : String
  message : String
deriving DecidableEq

/-- What a run keeps beside the graph: where it stands, what the present pass has
visited, the changes and the diagnostics so far, and what passes have noted of
nodes. -/
structure Journal where
  sweep : Nat
  currentPass : Option String
  visited : List NodeId
  changes : List Change
  diagnostics : List Diagnostic
  precision : List (NodeId × Int)
deriving DecidableEq

namespace Journal

/-- The journal before the first sweep. -/
def fresh : Journal := ⟨0, none, [], [], [], []⟩

/-- Start a pass in a sweep. Nothing has been visited by it yet. -/
def beginPass (journal : Journal) (pass : String) (sweep : Nat) : Journal :=
  { journal with currentPass := some pass, sweep := sweep, visited := [] }

/-- The present pass has visited the node. -/
def isVisited (journal : Journal) (id : NodeId) : Bool := journal.visited.contains id

/-- Note that the present pass has visited a node. -/
def markVisited (journal : Journal) (id : NodeId) : Journal :=
  if journal.isVisited id then journal else { journal with visited := id :: journal.visited }

/-- Record a change by the current pass. Outside a pass there is nothing to record. -/
def recordChange (journal : Journal) (node : String) : Journal :=
  match journal.currentPass with
  | some pass => { journal with changes := journal.changes ++ [⟨pass, node, journal.sweep⟩] }
  | none => journal

/-- The number of recorded changes of a pass. -/
def changeCount (journal : Journal) (pass : String) : Nat :=
  journal.changes.countP fun entry => entry.pass == pass

/-- The pass has already been reported at the node. -/
def isReported (journal : Journal) (pass node : String) : Bool :=
  journal.diagnostics.any fun entry => entry.pass == pass && entry.node == node

/-- Report a declined change, once for each pass and node. -/
def addDiagnostic (journal : Journal) (pass node message : String) : Journal :=
  if journal.isReported pass node then journal
  else { journal with diagnostics := journal.diagnostics ++ [⟨pass, node, message⟩] }

/-- Note that a node's value is snapped to a number of levels. -/
def annotate (journal : Journal) (id : NodeId) (levels : Int) : Journal :=
  { journal with
    precision := (id, levels) :: journal.precision.filter fun (key, _) => key ≠ id }

/-- The number of levels that was noted for a node, if one was. -/
def precisionOf (journal : Journal) (id : NodeId) : Option Int := journal.precision.lookup id

end Journal

end RangeFold
