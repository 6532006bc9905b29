import RangeFold.Pass.Elimination

/-!
# Scripted passes

A pass described by data: which kind it visits and what it does there. Scripted
passes exercise a pipeline with changes that are known beforehand, and with
failures.
-/

namespace RangeFold

variable {α : Type}

/-- What a scripted pass does at a node. -/
inductive ScriptedAction where
  | decline
  | claim
  | rename
  | remove
  | bypass
  | annotate
  | failLevels
  | failRange
  | failInternal
deriving DecidableEq

/-- The nodes a scripted pass visits. -/
inductive ScriptedScope where
  | kind (kind : OpKind)
  | everything
  | nothing
deriving DecidableEq

/-- A pass that does one thing at every node in its scope. -/
structure Script where
  id : String
  priority : Int
  runsAfter : List String
  scope : ScriptedScope
  action : ScriptedAction
  applicable : Bool
deriving DecidableEq

namespace Script

/-- A live node in scope. -/
def admits (script : Script) (graph : Graph α) (id : NodeId) : Bool :=
  match graph.node id with
  | none => false
  | some node =>
    match script.scope with
    | .kind kind => node.kind == kind
    | .everything => true
    | .nothing => false

/-- Carry out the action. Renaming derives the name from the pass and the sweep. -/
def perform [Arithmetic α] (script : Script) (id : NodeId) : Attempt (Progress α) Bool := do
  let progress ← Attempt.read
  let name := progress.graph.displayName id
  let sweep := progress.journal.sweep
  match script.action with
  | .decline => return false
  | .claim => return true
  | .rename =>
    Progress.onGraph (Graph.renameNode id (script.id ++ "_" ++ toString sweep))
    return true
  | .remove =>
    let _ ← Progress.onGraph (Graph.removeNode id)
    return true
  | .bypass =>
    let _ ← Progress.onGraph (Graph.eliminateNode id 0)
    return true
  | .annotate =>
    Progress.note fun journal => journal.annotate id sweep
    return true
  | .failLevels => Attempt.fail (.levels name 1)
  | .failRange => Attempt.fail (.range name (.stated "scripted"))
  | .failInternal => Attempt.fail (.internal (.stated "scripted"))

/-- The pass that a script describes. -/
def toPass [Arithmetic α] (script : Script) : Pass α where
  id := script.id
  priority := script.priority
  runsAfter := script.runsAfter
  isApplicable _ := script.applicable
  admits := script.admits
  apply := script.perform

end Script

end RangeFold
