import RangeFold.Proofs.Pass.Builtin
import RangeFold.Proofs.Pipeline.Advances
import RangeFold.Proofs.Session

/-!
# Runs over builtin passes converge

A run over builtin passes succeeds, whatever their number, order, priorities and settings, as long
as the values of the graph have shapes that arrays can have. Each change takes a node out of the
graph, so a run with more sweeps than the graph has nodes converges. Where it converges, there is
nothing left to change: neither at nodes that the run made, nor for a pass that it skipped.
-/

namespace RangeFold

variable {α : Type} [Arithmetic α]

/-- A constant that is put in a range, scaled and handed on to an exit. -/
def scaledSession : List (Call Rat) :=
  [.add .constant "w" [] (Attributes.empty.insert "value" (.tensor (Tensor.vector [0, 1]))),
    .add .quantizeRange "q" [⟨0, 0⟩]
      (QuantRange.toAttributes ⟨.scalar 0, .scalar 1, .scalar 0, .scalar 1, 2⟩),
    .add .constant "two" [] (Attributes.empty.insert "value" (.tensor (Tensor.vector [2]))),
    .add .multiply "m" [⟨1, 0⟩, ⟨2, 0⟩] Attributes.empty,
    .add .identity "i" [⟨3, 0⟩] Attributes.empty,
    .add .result "r" [⟨4, 0⟩] Attributes.empty]

/-- The graph that the session builds. -/
def scaled : Graph Rat := Call.performAll scaledSession Graph.empty

/-- All its types can be stored, being those of single elements and short vectors. -/
theorem scaled_storable : scaled.Storable := Graph.storable_of_nodes (by decide +kernel)

/-- A run over builtin passes succeeds where all values have shapes that arrays can have, and makes
at most as many changes as it removes nodes. With more sweeps than nodes it converges. A change at
any node of a sound graph, which every graph on the way of a run is, leaves fewer nodes. -/
theorem builtin_run_succeeds {graph : Graph α} (reachable : graph.Reachable)
    (pipeline : Pipeline α) (builtin : ∀ planned ∈ pipeline.passes, planned.pass.Builtin)
    (journal : Journal) :
    (graph.Storable → ∃ stats after, pipeline.runFrom ⟨graph, journal⟩ = (.ok stats, after) ∧
      stats.totalChanges ≤ stats.nodesRemoved ∧
      stats.nodesRemoved + after.graph.live = graph.live ∧
      (graph.live < pipeline.maxSweeps → stats.didNotConverge = false)) ∧
    ∀ planned ∈ pipeline.passes, ∀ (before after : Progress α) (id : NodeId),
      before.graph.Sound → planned.pass.apply id before = (.ok true, after) →
        after.graph.live < before.graph.live := by
  have reliable := Pipeline.reliable_of_builtin builtin
  refine ⟨fun stored => ?_, fun planned listed before after id sound applied =>
    (reliable planned listed).fewer before id after sound applied⟩
  obtain ⟨stats, after, ran, through⟩ := (Pipeline.runFrom_settles ⟨graph, journal⟩ reliable
    (Pipeline.scheduled_of_builtin builtin) reachable.sound).of_no_cause fun why => why.2 stored
  have paid : (pipeline.swept ⟨graph, journal⟩).live + stats.totalChanges ≤ graph.live :=
    through.advance.paid
  have fewer : after.graph.live ≤ (pipeline.swept ⟨graph, journal⟩).live :=
    through.left ▸ pipeline.live_finish_le through.advance.sound
  have exact : stats.nodesRemoved = graph.live - after.graph.live := through.removed
  exact ⟨stats, after, ran, by omega, by omega, through.limited⟩

/-- Of six nodes the exit and a constant are left. The range is folded and its
output scaled, and the identity goes. -/
theorem scaled_run_succeeds :
    scaled.live = 6 ∧
      (Pipeline.allBuiltin.runFrom ⟨scaled, Journal.fresh⟩).2.graph.live = 2 ∧
      ∃ stats after, Pipeline.allBuiltin.runFrom ⟨scaled, Journal.fresh⟩ = (.ok stats, after) ∧
        stats.totalChanges ≤ stats.nodesRemoved ∧
        stats.nodesRemoved + after.graph.live = scaled.live ∧ stats.didNotConverge = false := by
  have few : scaled.live < (Pipeline.allBuiltin : Pipeline Rat).maxSweeps := by decide +kernel
  obtain ⟨succeeds, -⟩ := builtin_run_succeeds ⟨scaledSession, rfl⟩ Pipeline.allBuiltin
    Pipeline.allBuiltin_builtin Journal.fresh
  obtain ⟨stats, after, ran, paid, counted, converges⟩ := succeeds scaled_storable
  exact ⟨by decide +kernel, by decide +kernel, stats, after, ran, paid, counted, converges few⟩

/-- A run over builtin passes that converges and does not prune leaves a graph in which none of
its passes would make a change at any node, and no identity node if they are to be removed. -/
theorem converged_run_idle {graph : Graph α} (reachable : graph.Reachable)
    (pipeline : Pipeline α) (builtin : ∀ planned ∈ pipeline.passes, planned.pass.Builtin)
    (journal : Journal) (unpruned : pipeline.prunes = false) {stats : RunStats}
    {after : Progress α} (ran : pipeline.runFrom ⟨graph, journal⟩ = (.ok stats, after))
    (converged : stats.didNotConverge = false) :
    (∀ planned ∈ pipeline.passes, ∀ id, ¬ planned.pass.Changes after.graph id) ∧
      ((∃ planned ∈ pipeline.passes, planned.pass.id = "eliminate_identity") →
        ∀ id node, after.graph.node id = some node → node.kind ≠ .identity) := by
  have through := (Pipeline.runFrom_settles ⟨graph, journal⟩ (Pipeline.reliable_of_builtin builtin)
    (Pipeline.scheduled_of_builtin builtin) reachable.sound).of_success ran
  have finished := through.left
  rw [Pipeline.finish, unpruned, if_neg Bool.false_ne_true] at finished
  have idle : ∀ planned ∈ pipeline.passes, planned.pass.Idle after.graph :=
    finished ▸ (through.settled converged).2
  refine ⟨fun planned listed id changes => idle planned listed id (.inl changes), ?_⟩
  rintro ⟨planned, listed, named⟩ id node found kind
  have eliminates := (builtin planned listed).eq_elimination named
  have sound : after.graph.Sound := finished ▸ through.advance.sound
  exact idle planned listed id (.inl (eliminates ▸ sound.identityElimination_changes found kind))

/-- The run without pruning converges at a graph without anything left to do. No
pass of it would change any node, whichever is tried. -/
theorem scaled_run_idle :
    ∃ stats after,
      (Pipeline.allBuiltin.withPruning false).runFrom ⟨scaled, Journal.fresh⟩ = (.ok stats, after) ∧
      stats.didNotConverge = false ∧
      ∀ planned ∈ (Pipeline.allBuiltin : Pipeline Rat).passes, ∀ id,
        ¬ planned.pass.Changes after.graph id := by
  have few : scaled.live < (Pipeline.allBuiltin : Pipeline Rat).maxSweeps := by decide +kernel
  have reachable : scaled.Reachable := ⟨scaledSession, rfl⟩
  have settles := @Pipeline.runFrom_settles _ _ (Pipeline.allBuiltin.withPruning false)
    ⟨scaled, Journal.fresh⟩ (Pipeline.reliable_of_builtin Pipeline.allBuiltin_builtin)
    (Pipeline.scheduled_of_builtin Pipeline.allBuiltin_builtin) reachable.sound
  obtain ⟨stats, after, ran, through⟩ := settles.of_no_cause fun why => why.2 scaled_storable
  have converged := through.limited few
  exact ⟨stats, after, ran, converged, (converged_run_idle reachable
    (Pipeline.allBuiltin.withPruning false) Pipeline.allBuiltin_builtin Journal.fresh rfl ran
    converged).1⟩

end RangeFold
