import RangeFold.Graph.Equality
import RangeFold.Proofs.Convergence
import RangeFold.Proofs.Pass.Parts

/-!
# Running a pipeline again

A run that converges leaves nothing to do where its sweeps ended, but it prunes after that.
Pruning may take the other readers away from a node that a folding or a fusion would have taken
out, and then a second run makes that change, or fails where a value is too large for it. It does
neither exactly where no pass of the pipeline acts in the pruned graph, and so wherever pruning
relieves no such node.
-/

namespace RangeFold

variable {α : Type} [Arithmetic α]

/-- A run of the pipeline takes one sweep, makes no change and leaves the graph as it is. -/
def Pipeline.Rests (pipeline : Pipeline α) (graph : Graph α) : Prop :=
  ∀ journal, ∃ stats after, pipeline.runFrom ⟨graph, journal⟩ = (.ok stats, after) ∧
    after.graph = graph ∧ stats.totalChanges = 0 ∧ stats.totalSweeps = 1 ∧
      stats.didNotConverge = false ∧ stats.nodesRemoved = 0

section Rest

variable {pipeline : Pipeline α}
  (builtin : ∀ planned ∈ pipeline.passes, planned.pass.Builtin) {graph : Graph α}
  (sound : graph.Sound) (needed : graph.unneeded = [])

include builtin sound needed

/-- A pipeline with a sweep to make rests at a graph without superfluous nodes just if none of
its passes acts there. -/
theorem Pipeline.rests_iff (limit : 0 < pipeline.maxSweeps) :
    pipeline.Rests graph ↔ ∀ planned ∈ pipeline.passes, planned.pass.Idle graph := by
  have settles (journal : Journal) := Pipeline.runFrom_settles ⟨graph, journal⟩
    (Pipeline.reliable_of_builtin builtin) (Pipeline.scheduled_of_builtin builtin) sound
  have finished : pipeline.finish graph = graph := by
    rw [Pipeline.finish, Graph.pruned_of_unneeded needed, ite_self]
  constructor
  · intro rests
    obtain ⟨stats, after, ran, -, changeless, -, converged, -⟩ := rests Journal.fresh
    have through := (settles Journal.fresh).of_success ran
    have idle := (through.settled converged).2
    rwa [through.advance.idle changeless] at idle
  · intro idle journal
    obtain ⟨stats, after, ran, through⟩ := (settles journal).of_no_cause fun why => why.1 idle
    obtain ⟨changeless, ends⟩ := through.resting idle
    obtain ⟨sweeps, converged⟩ := ends limit
    have same : after.graph = graph := by
      rw [through.left, through.advance.idle changeless, finished]
    exact ⟨stats, after, ran, same, changeless, sweeps, converged,
      by rw [through.removed, same, Nat.sub_self]⟩

end Rest

/-- After a run that converges and prunes, a second run rests just if no pass has a change to make
in the pruned graph or fails there for good. No pass does either in the graph before pruning, and
none in the pruned graph either where pruning takes no reader from a range, constant or layout
operation that is then left with one. -/
theorem second_run_rests_iff {graph : Graph α} (reachable : graph.Reachable)
    (pipeline : Pipeline α) (builtin : ∀ planned ∈ pipeline.passes, planned.pass.Builtin)
    (journal : Journal) (prunes : pipeline.prunes = true) {stats : RunStats}
    {after : Progress α} (ran : pipeline.runFrom ⟨graph, journal⟩ = (.ok stats, after))
    (converged : stats.didNotConverge = false) :
    after.graph = (pipeline.swept ⟨graph, journal⟩).pruned ∧
      (∀ planned ∈ pipeline.passes, ∀ id,
        ¬ planned.pass.Changes (pipeline.swept ⟨graph, journal⟩) id ∧
          ¬ planned.pass.Aborts (pipeline.swept ⟨graph, journal⟩) id) ∧
      (pipeline.Rests after.graph ↔ ∀ planned ∈ pipeline.passes, ∀ id,
        ¬ planned.pass.Changes after.graph id ∧ ¬ planned.pass.Aborts after.graph id) ∧
      ((∀ id, ¬ after.graph.Relieved (pipeline.swept ⟨graph, journal⟩) id) →
        pipeline.Rests after.graph) := by
  have through := (Pipeline.runFrom_settles ⟨graph, journal⟩ (Pipeline.reliable_of_builtin builtin)
    (Pipeline.scheduled_of_builtin builtin) reachable.sound).of_success ran
  have finished := through.left
  rw [Pipeline.finish, if_pos prunes] at finished
  obtain ⟨limit, idle⟩ := through.settled converged
  obtain ⟨-, soundAfter, -⟩ := through.advance.sound.prune_eq
  have rests := Pipeline.rests_iff builtin soundAfter through.advance.sound.unneeded_pruned limit
  rw [finished]
  refine ⟨rfl, fun planned listed id => not_or.mp (idle planned listed id), rests.trans ?_,
    fun kept => rests.mpr fun planned listed id acts => ?_⟩
  · simp only [Pass.Idle, Pass.Acts, not_or]
  · exact idle planned listed id ((Graph.part_cleared _ _).acts kept soundAfter
      through.advance.sound (builtin planned listed) acts)

/-- The first run on the scaled range leaves nothing to prune, so a second one
rests. No node is relieved of a reader by the pruning. -/
theorem scaled_second_run_rests :
    ∃ stats after, Pipeline.allBuiltin.runFrom ⟨scaled, Journal.fresh⟩ = (.ok stats, after) ∧
      stats.didNotConverge = false ∧ stats.totalChanges = 3 ∧
      Pipeline.allBuiltin.Rests after.graph := by
  have reachable : scaled.Reachable := ⟨scaledSession, rfl⟩
  have ran : (Pipeline.allBuiltin.runFrom ⟨scaled, Journal.fresh⟩).1 = .ok
      ⟨[("eliminate_identity", 1), ("fuse_multiply_to_quantization_range", 1),
        ("fuse_add_to_quantization_range", 0), ("fuse_quantization_range", 1)],
        false, 2, 4, []⟩ := by decide +kernel
  obtain ⟨left, -, -, rests⟩ := second_run_rests_iff reachable Pipeline.allBuiltin
    Pipeline.allBuiltin_builtin Journal.fresh rfl (Attempt.eq_of_answer ran) rfl
  have needed : (Pipeline.allBuiltin.swept ⟨scaled, Journal.fresh⟩).unneeded = [] := by
    decide +kernel
  refine ⟨_, _, Attempt.eq_of_answer ran, rfl, rfl, rests fun id relieved => ?_⟩
  rw [left, Graph.pruned_of_unneeded needed] at relieved
  exact Bool.false_ne_true (relieved.2.2.symm.trans relieved.2.1)

/-- A constant that a range reads, and an operation that nothing needs. -/
def sharedSession : List (Call Rat) :=
  [.add .constant "w" [] (Attributes.empty.insert "value" (.tensor (Tensor.vector [0, 1]))),
    .add .quantizeRange "q" [⟨0, 0⟩]
      (QuantRange.toAttributes ⟨.scalar 0, .scalar 1, .scalar 0, .scalar 1, 2⟩),
    .add .relu "spare" [⟨0, 0⟩] Attributes.empty,
    .add .result "r" [⟨1, 0⟩] Attributes.empty]

/-- The graph that the session builds. -/
def shared : Graph Rat := Call.performAll sharedSession Graph.empty

/-- What the first run leaves. -/
def sharedPruned : Graph Rat := (Pipeline.allBuiltin.runFrom ⟨shared, Journal.fresh⟩).2.graph

/-- The counts of a run with some number of foldings and no other changes. -/
def foldings (number : Nat) : List (String × Nat) :=
  [("eliminate_identity", 0), ("fuse_multiply_to_quantization_range", 0),
    ("fuse_add_to_quantization_range", 0), ("fuse_quantization_range", number)]

/-- The first run makes no change, because the constant is shared, and prunes the operation that
shares it. The second run folds the range. -/
theorem shared_second_run_changes :
    shared.Reachable ∧ (Pipeline.allBuiltin : Pipeline Rat).prunes = true ∧
      (∀ planned ∈ (Pipeline.allBuiltin : Pipeline Rat).passes, planned.pass.Builtin) ∧
      ∃ stats after again final,
        Pipeline.allBuiltin.runFrom ⟨shared, Journal.fresh⟩ = (.ok stats, after) ∧
        stats.didNotConverge = false ∧ stats.totalChanges = 0 ∧
        Pipeline.allBuiltin.runFrom ⟨after.graph, Journal.fresh⟩ = (.ok again, final) ∧
        again.totalChanges = 1 ∧ again.totalSweeps = 2 ∧
        after.graph.same final.graph = false ∧ ¬ Pipeline.allBuiltin.Rests after.graph := by
  have ran : (Pipeline.allBuiltin.runFrom ⟨shared, Journal.fresh⟩).1 =
      .ok ⟨foldings 0, false, 1, 1, []⟩ := by decide +kernel
  have again : (Pipeline.allBuiltin.runFrom ⟨sharedPruned, Journal.fresh⟩).1 =
      .ok ⟨foldings 1, false, 2, 1, []⟩ := by decide +kernel
  refine ⟨⟨sharedSession, rfl⟩, rfl, Pipeline.allBuiltin_builtin, _, _, _, _,
    Attempt.eq_of_answer ran, rfl, rfl, Attempt.eq_of_answer again, rfl, rfl, by decide +kernel,
    fun rests => ?_⟩
  obtain ⟨stats, after, other, -, changeless, -⟩ := rests Journal.fresh
  have same := (congrArg Prod.fst other).symm.trans again
  obtain rfl := Except.ok.inj same
  cases changeless

end RangeFold
