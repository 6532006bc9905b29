import RangeFold.Proofs.Refusal

/-!
# Refused edits

Adding, replacing, eliminating, removing and renaming a node are done entirely or not at
all: where one of them fails, the graph is the one that was there before, down to the order
of all readers.

Only a replacement can fail after it has begun. By then it has moved every reader of the
node, in the order in which they stood. Each is moved back in turn, so they stand in that
order again, and the readers that the new value had before were never passed over. A single
input that is moved away and back has no such claim to its place.
-/

namespace RangeFold

variable {α σ β : Type}

namespace Attempt

/-- Where the step fails, the state is as it was. -/
def Restores (step : Attempt σ β) (state : σ) : Prop :=
  ∀ failure after, step state = (.error failure, after) → after = state

/-- A step that fails where it started gives the state back. -/
theorem restores_of_error {step : Attempt σ β} {state : σ} {failure : Failure}
    (failed : step state = (.error failure, state)) : step.Restores state := by
  intro _ after refused
  exact (Prod.mk.inj (refused.symm.trans failed)).2

/-- A step that succeeds has nothing to give back. -/
theorem restores_of_ok {step : Attempt σ β} {state after : σ} {value : β}
    (succeeded : step state = (.ok value, after)) : step.Restores state := by
  intro _ _ refused
  cases succeeded.symm.trans refused

end Attempt

namespace Graph

open Attempt

variable {graph : Graph α}

/-- A refused removal leaves the graph: the count of readers is taken before
anything is written. -/
theorem Linked.restores_removeNode (linked : graph.Linked) (id : NodeId) :
    (removeNode id).Restores graph := by
  rcases linked.removeNode_cases id with ⟨_, failed⟩ | ⟨_, _, _, removed⟩
  · exact restores_of_error failed
  · exact restores_of_ok removed

/-- A refused name leaves the graph, for a node that is gone as for a name that is
taken. -/
theorem restores_renameNode (graph : Graph α) (id : NodeId) (name : String) :
    (renameNode id name).Restores graph := by
  rcases renameNode_cases graph id name with ⟨_, failed⟩ | same | ⟨_, _, _, renamed⟩
  · exact restores_of_error failed
  · exact restores_of_ok same
  · exact restores_of_ok renamed

variable [Arithmetic α]

/-- A refused node leaves the graph, since all checks come before the one write. -/
theorem restores_addNode (graph : Graph α) (kind : OpKind) (name : String)
    (inputs : List OutputRef) (attributes : Attributes α) :
    (addNode kind name inputs attributes).Restores graph := by
  rcases addNode_cases graph kind name inputs attributes with
    ⟨_, failed⟩ | ⟨_, _, _, _, _, added⟩
  · exact restores_of_error failed
  · exact restores_of_ok added

/-- A refused replacement gives the graph back, also when the edges had been moved
already. All consumers of the node had moved, in their order; moving them back in
that order rebuilds the list they came from. -/
theorem Sound.restores_replaceNode (sound : graph.Sound) (id : NodeId)
    (outputs : List OutputRef) : (replaceNode id outputs).Restores graph := by
  by_cases ready : ∃ node target, outputs = [target] ∧ graph.Replaceable id node target
  · obtain ⟨node, target, rfl, replaceable⟩ := ready
    rcases sound.replaceNode_cases replaceable with ⟨_, _, succeeded, _⟩ | ⟨_, _, failed⟩
    · exact restores_of_ok succeeded
    · exact restores_of_error failed
  · obtain ⟨_, failed⟩ := sound.replaceNode_refused fun node target same replaceable =>
      ready ⟨node, target, same, replaceable⟩
    exact restores_of_error failed

/-- An elimination fails before it begins or with the replacement it makes. In
either case the graph is the old one. -/
theorem Sound.restores_eliminateNode (sound : graph.Sound) (id : NodeId) (input : Nat) :
    (eliminateNode id input).Restores graph := by
  cases found : graph.node id with
  | none => exact restores_of_error (by rw [eliminateNode, bind_of_error (getNode_of_none found)])
  | some node =>
    intro failure after refused
    rw [eliminateNode, bind_of_ok (getNode_of_node found)] at refused
    cases listed : node.inputs[input]? with
    | none =>
      simp only [listed, fail_apply, Prod.mk.injEq] at refused
      exact refused.2.symm
    | some source =>
      simp only [listed] at refused
      rcases outcome : replaceNode id [source] graph with ⟨_ | _, reached⟩
      · rw [bind_of_error outcome] at refused
        exact (Prod.mk.inj refused).2 ▸ sound.restores_replaceNode id [source] _ _ outcome
      · rw [bind_of_ok outcome] at refused
        cases refused

/-- Edits of nodes are done entirely or not at all. In particular a replacement may be taken
back after all readers have moved: the same moves made backwards in the same order give the
graph that was there before. -/
theorem refused_edits_restore (reachable : graph.Reachable) :
    (∀ kind name inputs attributes, (addNode kind name inputs attributes).Restores graph) ∧
    (∀ id outputs, (replaceNode id outputs).Restores graph) ∧
    (∀ id input, (eliminateNode id input).Restores graph) ∧
    (∀ id, (removeNode id).Restores graph) ∧
    (∀ id name, (renameNode id name).Restores graph) ∧
    ∀ id node target, graph.Replaceable id node target → ∃ undo redo,
      rewireAll (replacementMoves node [target]) graph =
        (.ok undo, graph.redirect ⟨id, 0⟩ target node.consumers) ∧
      rewireAll undo (graph.redirect ⟨id, 0⟩ target node.consumers) = (.ok redo, graph) := by
  have sound := reachable.sound
  refine ⟨restores_addNode graph, sound.restores_replaceNode, sound.restores_eliminateNode,
    sound.linked.restores_removeNode, restores_renameNode graph, ?_⟩
  intro id node target replaceable
  obtain ⟨moving, back⟩ := replaceable.moves_back sound.linked sound.fresh.single
  exact ⟨_, _, moving, back⟩

/-- A constant that two sums read, one of them as its first operand, and another of a size
that neither sum takes. -/
def mismatchedSession : List (Call Rat) :=
  [.add .parameter "x" [] (vectorEntry 2),
    .add .constant "c" [] (Attributes.empty.insert "value" (.tensor (Tensor.vector [1, 2]))),
    .add .add "first" [⟨0, 0⟩, ⟨1, 0⟩] Attributes.empty,
    .add .add "second" [⟨1, 0⟩, ⟨2, 0⟩] Attributes.empty,
    .add .constant "wide" [] (Attributes.empty.insert "value" (.tensor (Tensor.vector [1, 2, 3]))),
    .add .relu "reader" [⟨4, 0⟩] Attributes.empty]

/-- The graph that the session builds. -/
def mismatched : Graph Rat := Call.performAll mismatchedSession empty

/-- The session is the way to reach it. -/
theorem mismatched_reachable : mismatched.Reachable := ⟨mismatchedSession, rfl⟩

/-- Both readers of the constant move to the other one and back. They end in the
order in which they began. -/
theorem mismatched_restored :
    mismatched.Reachable ∧
    (∃ failure, replaceNode 1 [⟨4, 0⟩] mismatched =
      (.error failure, (replaceNode 1 [⟨4, 0⟩] mismatched).2)) ∧
    (replaceNode 1 [⟨4, 0⟩] mismatched).2 = mismatched ∧
    ∃ node undo redo, mismatched.Replaceable 1 node ⟨4, 0⟩ ∧
      rewireAll (replacementMoves node [⟨4, 0⟩]) mismatched =
        (.ok undo, mismatched.redirect ⟨1, 0⟩ ⟨4, 0⟩ node.consumers) ∧
      rewireAll undo (mismatched.redirect ⟨1, 0⟩ ⟨4, 0⟩ node.consumers) =
        (.ok redo, mismatched) := by
  obtain ⟨_, replacements, _, _, _, undoing⟩ := refused_edits_restore mismatched_reachable
  have sound := mismatched_reachable.sound
  obtain ⟨node, _, replaceable⟩ :
      ∃ node, mismatched.node 1 = some node ∧ mismatched.Replaceable 1 node ⟨4, 0⟩ :=
    sound.linked.exists_replaceable sound.fresh.single (by decide +kernel)
  obtain ⟨failure, refused⟩ : ∃ failure, replaceNode 1 [⟨4, 0⟩] mismatched =
      (.error failure, (replaceNode 1 [⟨4, 0⟩] mismatched).2) :=
    fails_iff.mpr (by decide +kernel)
  obtain ⟨undo, redo, moving, back⟩ := undoing 1 node ⟨4, 0⟩ replaceable
  exact ⟨mismatched_reachable, ⟨failure, refused⟩, replacements 1 _ failure _ refused,
    node, undo, redo, replaceable, moving, back⟩

end Graph

end RangeFold
