import RangeFold.Proofs.Effects

/-!
# Bridging a node

The check before an elimination looks at one node and at one value that it reads. It leaves out all that
a replacement may fail on: the value could be gone, the readers could lead back to it, and types further
down could no longer be inferred. In a graph that a session builds none of this can happen. What a node
reads is there and does not depend on the node, so it depends on no reader of the node either; and since
it has the type of the node's own output, every reader is typed as before.

So the node goes, its readers move to the value, whichever input that is, and nothing else changes.
-/

namespace RangeFold.Graph

variable {α : Type} [Arithmetic α] {graph : Graph α} {id : NodeId} {node : Node α}

/-- What is left of a sound graph from which a node has been bridged. The guard asks
for equal types and for a node that may be replaced, which is all that the
elimination needs. -/
theorem Sound.bridges (sound : graph.Sound) {input : Nat}
    (guarded : graph.canEliminate id input = true) : ∃ node source after,
      graph.node id = some node ∧ node.inputs[input]? = some source ∧
      eliminateNode id input graph = (.ok ⟨node.name, node.consumerCount⟩, after) ∧
      graph.Replaceable id node source ∧ after.Sound ∧ after.live + 1 = graph.live ∧
      graph.Rewired after ⟨id, 0⟩ source node.consumers [id] ∧
      ∀ other left, after.node other = some left →
        ∃ before, graph.node other = some before ∧ left.outputTypes = before.outputTypes := by
  obtain ⟨node, source, found, ⟨inner, notResult, -⟩, reads, typed⟩ := canEliminate_iff.mp guarded
  obtain ⟨replaceable, replacing, eliminated, soundAfter, counted⟩ :=
    sound.eliminateNode_eq found notResult reads typed
  obtain ⟨again, replaceableAgain, rewired⟩ := sound.rewired_replaceNode replacing
  obtain rfl : node = again := Option.some.inj (found.symm.trans replaceableAgain.found)
  rw [outgoing, if_neg inner] at rewired
  exact ⟨node, source, _, found, reads, eliminated, replaceable, soundAfter, counted, rewired,
    fun other left leaves => outputTypes_spliced leaves⟩

/-- The check is enough. A node that passes it is eliminated, with its name and the number of the inputs
that read it as the answer. It is the only node that goes. Those inputs are the only ones that move: they
read the bridged value and come last among its readers, of which the node is one no more. Everything else
stays, the types of all other nodes included. -/
theorem bridging_exact (reachable : graph.Reachable) {input : Nat}
    (guarded : graph.canEliminate id input = true) : ∃ node source after,
      graph.node id = some node ∧ node.inputs[input]? = some source ∧
      eliminateNode id input graph = (.ok ⟨node.name, node.consumers.length⟩, after) ∧
      node.consumers.Nodup ∧
      (∀ consumer, consumer ∈ node.consumers ↔ ∃ slot, graph.Reads consumer ⟨id, slot⟩) ∧
      graph.Rewired after ⟨id, 0⟩ source node.consumers [id] ∧
      after.consumers source =
        ((graph.consumers source).filter fun reader => reader.node ≠ id) ++ node.consumers ∧
      ∀ other left, after.node other = some left →
        ∃ before, graph.node other = some before ∧ left.outputTypes = before.outputTypes := by
  have sound := reachable.sound
  obtain ⟨node, source, after, found, reads, eliminated, replaceable, -, -, rewired, types⟩ :=
    sound.bridges guarded
  have inner := sound.not_parameter_of_reads found (List.mem_of_getElem? reads)
  rw [← consumers_length] at eliminated
  refine ⟨node, source, after, found, reads, eliminated, replaceable.redirectable.distinct,
    fun consumer => sound.linked.mem_nodeConsumers_iff found, rewired, ?_, types⟩
  have gone : outgoing id node = [id] := if_neg inner
  exact (gone ▸ rewired).arrivals_eq sound found replaceable.other

/-- A sum of a single element and a vector, read three times, beside another reader of the vector. -/
def raisedSession : List (Call Rat) :=
  [.add .parameter "offset" [] (vectorEntry 1),
    .add .parameter "x" [] (vectorEntry 3),
    .add .add "sum" [⟨0, 0⟩, ⟨1, 0⟩] Attributes.empty,
    .add .relu "rectified" [⟨1, 0⟩] Attributes.empty,
    .add .multiply "square" [⟨2, 0⟩, ⟨2, 0⟩] Attributes.empty,
    .add .result "r" [⟨2, 0⟩] Attributes.empty]

/-- The graph that the session builds. -/
def raised : Graph Rat := Call.performAll raisedSession empty

/-- The sum has the type of its second operand only, and can be bridged by that one
only. Its three uses come to read that operand, in the order in which they read the
sum. -/
theorem raised_bridged : raised.Reachable ∧ raised.canEliminate 2 0 = false ∧
    raised.canEliminate 2 1 = true ∧ ∃ after,
      eliminateNode 2 1 raised = (.ok ⟨"sum", 3⟩, after) ∧ after.node 2 = none ∧
      after.consumers ⟨1, 0⟩ = [⟨3, 0⟩, ⟨4, 0⟩, ⟨4, 1⟩, ⟨5, 0⟩] := by
  have reachable : raised.Reachable := ⟨raisedSession, rfl⟩
  have guarded : raised.canEliminate 2 1 = true := by decide +kernel
  obtain ⟨node, source, after, found, reads, eliminated, -, -, rewired, arrivals, -⟩ :=
    bridging_exact reachable guarded
  have described := congrArg (Option.map fun node => (node.name, node.consumers, node.inputs)) found
  rw [(by decide +kernel : (raised.node 2).map
    (fun node => (node.name, node.consumers, node.inputs)) =
      some ("sum", [⟨4, 0⟩, ⟨4, 1⟩, ⟨5, 0⟩], [⟨0, 0⟩, ⟨1, 0⟩]))] at described
  obtain ⟨name, rest⟩ := Prod.mk.inj (Option.some.inj described)
  obtain ⟨readers, inputs⟩ := Prod.mk.inj rest
  rw [← inputs] at reads
  obtain rfl : ⟨1, 0⟩ = source := Option.some.inj reads
  rw [← name, ← readers] at eliminated
  rw [← readers, (by decide +kernel : raised.consumers ⟨1, 0⟩ = [⟨2, 1⟩, ⟨3, 0⟩])] at arrivals
  have absent : after.node 2 = none := Option.eq_none_iff_forall_ne_some.mpr fun left leaves =>
    ((rewired.places 2).mp ⟨left, leaves⟩).2 List.mem_cons_self
  exact ⟨reachable, by decide +kernel, guarded, after, eliminated, absent, arrivals⟩

end RangeFold.Graph
