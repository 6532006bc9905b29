import RangeFold.Proofs.Graph.Substitution
import RangeFold.Proofs.Meaning.Folding
import RangeFold.Proofs.Typing.Layout

/-!
# Verdicts of a pass

At a node that it admits, a pass of this library does one of four things on a sound graph:
it changes the graph, which leaves fewer nodes, it declines, it fails in a way that a run
reports and goes on from, or it fails for good. Only in the first case anything is changed, and
the last one takes a value in the graph whose shape no array can have. Which of the four it is
depends on the graph alone.

A pass of which this is known is reliable. Removing identity nodes is: an identity node has
the type of what it reads, and no reader of it leads back to what it reads.
-/

namespace RangeFold

open Attempt Relation

variable {α : Type}

/-- The pass admits the node and answers that it has changed the graph there. -/
def Pass.Changes (pass : Pass α) (graph : Graph α) (id : NodeId) : Prop :=
  pass.admits graph id = true ∧
    ∃ journal after, pass.apply id ⟨graph, journal⟩ = (.ok true, after)

/-- The pass admits the node and fails there in a way that ends a run. -/
def Pass.Aborts (pass : Pass α) (graph : Graph α) (id : NodeId) : Prop :=
  pass.admits graph id = true ∧ ∃ journal failure after,
    pass.apply id ⟨graph, journal⟩ = (.error failure, after) ∧ failure.isRecoverable = false

/-- The pass acts at a node if it changes the graph there or fails for good. Whatever else it does
leaves a run to go on with the same graph. -/
def Pass.Acts (pass : Pass α) (graph : Graph α) (id : NodeId) : Prop :=
  pass.Changes graph id ∨ pass.Aborts graph id

namespace Graph

/-- Every value of the graph has a shape that an array can have. -/
def Storable (graph : Graph α) : Prop :=
  ∀ source type, graph.outputType source = some type → type.shape.Storable

/-- The values of a graph have no types but those of values of another one. -/
def Inherits (graph before : Graph α) : Prop :=
  ∀ source type, graph.outputType source = some type →
    ∃ origin, before.outputType origin = some type

/-- A graph has no types but its own. -/
theorem Inherits.refl (graph : Graph α) : graph.Inherits graph :=
  fun source _ typed => ⟨source, typed⟩

/-- Having no new types is transitive, so along a run no type appears that was not
there at the start. -/
theorem Inherits.trans {graph middle before : Graph α} (second : graph.Inherits middle)
    (first : middle.Inherits before) : graph.Inherits before := by
  intro source type typed
  obtain ⟨between, own⟩ := second source type typed
  exact first between type own

/-- What is inherited is no larger than before. Its types were all in the graph
before. -/
theorem Storable.of_inherits {graph before : Graph α} (stored : before.Storable)
    (inherits : graph.Inherits before) : graph.Storable := by
  intro source type typed
  obtain ⟨origin, own⟩ := inherits source type typed
  exact stored origin type own

/-- A value of some node is enough to inherit its type from. Where the value stands
has no part in it. -/
theorem Inherits.of_node {graph before : Graph α}
    (kept : ∀ id node, graph.node id = some node →
      ∃ origin old, before.node origin = some old ∧ node.outputTypes = old.outputTypes) :
    graph.Inherits before := by
  intro source type typed
  obtain ⟨node, found, own⟩ := Option.bind_eq_some_iff.mp typed
  obtain ⟨origin, old, foundOld, same⟩ := kept source.node node found
  rw [Node.outputType_eq, same, ← Node.outputType_eq] at own
  exact ⟨⟨origin, source.slot⟩, Option.bind_eq_some_iff.mpr ⟨old, foundOld, own⟩⟩

/-- It is enough to look at what the live nodes state. On a given graph this can be
decided. -/
theorem storable_of_nodes {graph : Graph α}
    (small : graph.nodes.all (fun entry =>
      entry.2.outputTypes.all fun type => decide type.shape.Storable) = true) : graph.Storable := by
  intro source type typed
  obtain ⟨node, found, own⟩ := Option.bind_eq_some_iff.mp typed
  rw [Node.outputType_eq] at own
  have each := List.all_eq_true.mp small _ (mem_nodes_iff.mpr found)
  exact of_decide_eq_true (List.all_eq_true.mp each type (List.mem_of_getElem? own))

/-- Bridging touches no type. Nodes that are left have their outputs, with other
readers at most. -/
theorem outputTypes_spliced {graph : Graph α} {id : NodeId} {node : Node α} {source : OutputRef}
    {other : NodeId} {left : Node α}
    (leaves : (graph.spliced id node source).node other = some left) :
    ∃ before, graph.node other = some before ∧ left.outputTypes = before.outputTypes := by
  rw [spliced, node_detach] at leaves
  split at leaves
  · cases leaves
  · rw [node_redirect, Option.map_map] at leaves
    obtain ⟨before, found, rfl⟩ := Option.map_eq_some_iff.mp leaves
    exact ⟨before, found, by simp⟩

/-- Splicing a node out brings in no types: what its readers read now was in the
graph before. -/
theorem inherits_spliced (graph : Graph α) (id : NodeId) (node : Node α) (source : OutputRef) :
    (graph.spliced id node source).Inherits graph :=
  .of_node fun other _ found => by
    obtain ⟨before, foundBefore, same⟩ := outputTypes_spliced found
    exact ⟨other, before, foundBefore, same⟩

end Graph

/-- What may come of a step of a pass, in a state that has a graph. -/
inductive Pass.Verdict [Arithmetic α] {σ : Type} (graphOf : σ → Graph α) (step : Attempt σ Bool)
    (state : σ) : Prop where
  | changes {after : σ} (applied : step state = (.ok true, after))
      (sound : (graphOf after).Sound) (fewer : (graphOf after).live < (graphOf state).live)
      (inherits : (graphOf after).Inherits (graphOf state)) : Pass.Verdict graphOf step state
  | declines (applied : step state = (.ok false, state)) : Pass.Verdict graphOf step state
  | reports {failure : Failure} (applied : step state = (.error failure, state))
      (recoverable : failure.isRecoverable = true) : Pass.Verdict graphOf step state
  | aborts {failure : Failure} (applied : step state = (.error failure, state))
      (grave : failure.isRecoverable = false) (large : ¬ (graphOf state).Storable) :
      Pass.Verdict graphOf step state

/-- A pass with a verdict at every node it admits, which depends on the graph alone. It admits
live nodes of graphs to which it is applicable, and wherever it makes a change, nodes
go. -/
structure Pass.Reliable [Arithmetic α] (pass : Pass α) : Prop where
  verdict : ∀ progress id, progress.graph.Sound → pass.admits progress.graph id = true →
    Pass.Verdict Progress.graph (pass.apply id) progress
  fewer : ∀ progress id after, progress.graph.Sound → pass.apply id progress = (.ok true, after) →
    after.graph.live < progress.graph.live
  answer : ∀ id graph first second,
    (pass.apply id ⟨graph, first⟩).1 = (pass.apply id ⟨graph, second⟩).1
  live : ∀ graph id, pass.admits graph id = true → ∃ node, graph.node id = some node
  applicable : ∀ graph id, pass.admits graph id = true → pass.isApplicable graph = true

/-- The answer of a pass that acts: it has made a change, or it has failed for good. -/
def Pass.Acting (answer : Except Failure Bool) : Prop :=
  answer = .ok true ∨ ∃ failure, answer = .error failure ∧ failure.isRecoverable = false

/-- In whichever journal a reliable pass is tried, its answer tells whether it acts.
Journals are written by passes, but not read by reliable ones. -/
theorem Pass.Reliable.acts_iff [Arithmetic α] {pass : Pass α} (reliable : pass.Reliable)
    (progress : Progress α) (id : NodeId) : pass.Acts progress.graph id ↔
      pass.admits progress.graph id = true ∧ Pass.Acting (pass.apply id progress).1 := by
  have same (journal : Journal) :
      (pass.apply id ⟨progress.graph, journal⟩).1 = (pass.apply id progress).1 :=
    reliable.answer id progress.graph journal progress.journal
  rw [Pass.Acting, and_or_left]
  refine or_congr (and_congr_right fun _ => ?_) (and_congr_right fun _ => ?_)
  · constructor
    · rintro ⟨journal, after, applied⟩
      exact (same journal).symm.trans (congrArg Prod.fst applied)
    · intro answered
      exact ⟨progress.journal, _, eq_of_answer answered⟩
  · constructor
    · rintro ⟨journal, failure, after, applied, grave⟩
      exact ⟨failure, (same journal).symm.trans (congrArg Prod.fst applied), grave⟩
    · rintro ⟨failure, answered, grave⟩
      exact ⟨progress.journal, failure, _, eq_of_answer answered, grave⟩

/-- A step on the graph of a run leaves the journal alone. -/
theorem Progress.onGraph_apply {β : Type} (step : Attempt (Graph α) β) (progress : Progress α) :
    Progress.onGraph step progress =
      ((step progress.graph).1, ⟨(step progress.graph).2, progress.journal⟩) := rfl

/-- A verdict on a step of the graph alone is one on the run. The journal is passed
through. -/
theorem Pass.Verdict.onGraph [Arithmetic α] {step : Attempt (Graph α) Bool} {progress : Progress α}
    (verdict : Pass.Verdict (fun graph => graph) step progress.graph) :
    Pass.Verdict Progress.graph (Progress.onGraph step) progress := by
  cases verdict with
  | @changes after applied sound fewer inherits =>
    have step : Progress.onGraph step progress = (.ok true, ⟨after, progress.journal⟩) := by
      rw [Progress.onGraph_apply, applied]
    exact .changes step sound fewer inherits
  | declines applied => exact .declines (by rw [Progress.onGraph_apply, applied])
  | reports applied recoverable =>
    exact .reports (by rw [Progress.onGraph_apply, applied]) recoverable
  | aborts applied grave large =>
    exact .aborts (by rw [Progress.onGraph_apply, applied]) grave large

/-- A step that fails has a verdict, as soon as the failures that end a run are laid to the size
of a value. -/
theorem Pass.Verdict.of_failed [Arithmetic α] {σ : Type} {graphOf : σ → Graph α}
    {step : Attempt σ Bool} {state : σ} {failure : Failure}
    (applied : step state = (.error failure, state))
    (reported : (graphOf state).Storable → failure.isRecoverable = true) :
    Pass.Verdict graphOf step state := by
  cases recoverable : failure.isRecoverable with
  | true => exact .reports applied recoverable
  | false =>
    exact .aborts applied recoverable fun stored => by simp [reported stored] at recoverable

/-- A change that a verdict accounts for has taken at least one node. -/
theorem Pass.Verdict.fewer_of_changed [Arithmetic α] {σ : Type} {graphOf : σ → Graph α}
    {step : Attempt σ Bool} {state after : σ} (verdict : Pass.Verdict graphOf step state)
    (applied : step state = (.ok true, after)) : (graphOf after).live < (graphOf state).live := by
  cases verdict with
  | changes again _ fewer _ =>
    obtain ⟨-, rfl⟩ := Prod.mk.inj (again.symm.trans applied)
    exact fewer
  | declines again | reports again _ | aborts again _ _ => cases again.symm.trans applied

/-- Only a change leaves another state behind. A failure counts as none, because
verdicts restore the state. -/
theorem Pass.Verdict.unchanged [Arithmetic α] {σ : Type} {graphOf : σ → Graph α}
    {step : Attempt σ Bool} {state after : σ} {answer : Except Failure Bool}
    (verdict : Pass.Verdict graphOf step state) (applied : step state = (answer, after))
    (other : answer ≠ .ok true) : after = state := by
  cases verdict with
  | changes again _ _ _ => exact absurd (congrArg Prod.fst (applied.symm.trans again)) other
  | declines again | reports again _ | aborts again _ _ =>
    exact congrArg Prod.snd (applied.symm.trans again)

namespace Graph

section Kinds

variable {graph : Graph α}

/-- A kind is among those of the live nodes if one of them has it. Passes are
skipped by looking for their kind in the graph. -/
theorem hasKind_of_node {id : NodeId} {node : Node α} (found : graph.node id = some node) :
    graph.hasKind node.kind = true :=
  List.any_eq_true.mpr ⟨(id, node), mem_nodes_iff.mpr found, beq_self_eq_true node.kind⟩

end Kinds

variable [Arithmetic α] {graph : Graph α} {id : NodeId} {node : Node α}

/-- A replacement that succeeds takes the node out, unless it is a parameter. Moving
its readers costs no node. -/
theorem Sound.live_replaceNode (sound : graph.Sound) {outputs : List OutputRef} {after : Graph α}
    (replaced : replaceNode id outputs graph = (.ok (), after)) (found : graph.node id = some node)
    (inner : node.kind ≠ .parameter) : after.live + 1 = graph.live := by
  by_cases ready : ∃ target, outputs = [target] ∧ graph.Replaceable id node target
  · obtain ⟨target, rfl, replaceable⟩ := ready
    rcases sound.replaceNode_cases replaceable with ⟨types, _, replacing, _⟩ | ⟨_, failure, failed⟩
    · obtain ⟨-, rfl⟩ := Prod.mk.inj (replacing.symm.trans replaced)
      have counted := sound.live_detach found node.name
      rw [Graph.replaced, if_neg inner]
      exact counted
    · cases failed.symm.trans replaced
  · have refused (other : Node α) (target : OutputRef) (same : outputs = [target]) :
        ¬ graph.Replaceable id other target := fun replaceable => by
      obtain rfl : node = other := Option.some.inj (found.symm.trans replaceable.found)
      exact ready ⟨target, same, replaceable⟩
    obtain ⟨failure, failed⟩ := sound.replaceNode_refused refused
    cases failed.symm.trans replaced

/-- A node that reads something is no parameter. Parameters are typed with no
inputs. -/
theorem Sound.not_parameter_of_reads (sound : graph.Sound) (found : graph.node id = some node)
    {source : OutputRef} (reads : source ∈ node.inputs) : node.kind ≠ .parameter := by
  intro kind
  obtain ⟨inputs, known, typed⟩ := sound.fresh id node found
  obtain ⟨type, ruled, -⟩ := inferOutputs_eq_ok_iff.mp typed
  rw [kind] at ruled
  have none : inputs = [] := by
    have checked := (Attempt.bind_eq_ok_iff.mp (show Typing.parameterType _ = .ok type from ruled))
    obtain ⟨_, counted, -⟩ := checked
    by_contra some
    have wrong : ¬ inputs.length = 0 := by simpa using some
    simp [Typing.Site.expectInputs, wrong, Typing.Site.fail] at counted
  simp only [none, List.map_nil, List.map_eq_nil_iff] at known
  simp [known] at reads

/-- Bridging a node by one of its inputs leaves one node fewer. It is replaced by
what it reads and is no parameter, so it goes. -/
theorem Sound.live_eliminateNode (sound : graph.Sound) {input : Nat} {done : Elimination}
    {after : Graph α} (eliminated : eliminateNode id input graph = (.ok done, after)) :
    after.live + 1 = graph.live := by
  cases found : graph.node id with
  | none =>
    have missing := getNode_of_none found
    cases (bind_of_error missing).symm.trans eliminated
  | some node =>
    have getting := getNode_of_node found
    rw [eliminateNode, bind_of_ok getting] at eliminated
    cases reads : node.inputs[input]? with
    | none => simp [reads] at eliminated
    | some source =>
      simp only [reads] at eliminated
      have inner := sound.not_parameter_of_reads found (List.mem_of_getElem? reads)
      rcases replacing : replaceNode id [source] graph with ⟨_ | _, middle⟩
      · cases (bind_of_error replacing).symm.trans eliminated
      · rw [bind_of_ok replacing] at eliminated
        obtain ⟨-, rfl⟩ := Prod.mk.inj eliminated
        exact sound.live_replaceNode replacing found inner

/-- An identity node has one input, of its own type. Bridging it changes the type of
nothing. -/
theorem Sound.identity_input (sound : graph.Sound) (found : graph.node id = some node)
    (kind : node.kind = .identity) : ∃ source, node.inputs = [source] ∧
      graph.outputType source = node.outputType 0 := by
  obtain ⟨source, input, reads, -, known, typed⟩ := sound.sole_input found (by rw [kind]; rfl)
  obtain ⟨type, ruled, sole⟩ := inferOutputs_eq_ok_iff.mp typed
  rw [kind] at ruled
  obtain rfl : input = type := Except.ok.inj ruled
  refine ⟨source, reads, known.trans ?_⟩
  rw [Node.outputType_eq, sole]
  rfl

/-- A node that reads a value of its own type can be bridged by it. Nothing that reads the node leads
back to what the node reads, and no type changes. -/
theorem Sound.eliminateNode_eq (sound : graph.Sound) (found : graph.node id = some node)
    (kind : node.kind ≠ .result) {input : Nat} {source : OutputRef}
    (reads : node.inputs[input]? = some source)
    (typed : graph.outputType source = node.outputType 0) :
    graph.Replaceable id node source ∧
      replaceNode id [source] graph = (.ok (), graph.spliced id node source) ∧
      eliminateNode id input graph =
        (.ok ⟨node.name, node.consumerCount⟩, graph.spliced id node source) ∧
      (graph.spliced id node source).Sound ∧
      (graph.spliced id node source).live + 1 = graph.live := by
  have feeds : graph.Feeds source.node id := ⟨input, source.slot, node, found, reads⟩
  have live : ∃ slot, graph.outputSlot source = some slot :=
    sound.linked.produced ⟨id, input⟩ source ⟨node, found, reads⟩
  have replaceable : graph.Replaceable id node source := sound.replaceable found kind
    (fun same => sound.acyclic id (.single (same ▸ feeds))) live fun reader read path =>
      sound.acyclic id (.tail' (.head read path) feeds)
  have own : graph.outputType ⟨id, 0⟩ = node.outputType 0 := by simp [Graph.outputType, found]
  obtain ⟨replacing, soundAfter, counted⟩ := sound.replaceNode_eq replaceable
    (sound.not_parameter_of_reads found (List.mem_of_getElem? reads)) (typed.trans own.symm)
  refine ⟨replaceable, replacing, ?_, soundAfter, counted⟩
  rw [eliminateNode, bind_of_ok (getNode_of_node found)]
  simp only [reads]
  rw [bind_of_ok replacing]
  rfl

/-- Every identity node can be eliminated. Types agree, and no path leads from its
readers back to what it reads. -/
theorem Sound.eliminate_identity (sound : graph.Sound) (found : graph.node id = some node)
    (kind : node.kind = .identity) : ∃ done after, eliminateNode id 0 graph = (.ok done, after) ∧
      after.Sound ∧ after.live < graph.live ∧ after.Inherits graph := by
  obtain ⟨source, reads, typed⟩ := sound.identity_input found kind
  obtain ⟨-, -, eliminated, soundAfter, counted⟩ := sound.eliminateNode_eq found (by simp [kind])
    (show node.inputs[0]? = some source by simp [reads]) typed
  exact ⟨_, _, eliminated, soundAfter, by omega, inherits_spliced graph id node source⟩

end Graph

section Elimination

variable [Arithmetic α] {graph : Graph α} {id : NodeId}

/-- The elimination admits identity nodes. It asks for nothing else. -/
theorem identity_of_admits (admitted : (identityElimination : Pass α).admits graph id = true) :
    ∃ node, graph.node id = some node ∧ node.kind = .identity := by
  obtain ⟨matched, -⟩ := Bool.and_eq_true_iff.mp admitted
  exact Pattern.kind_of_matchAt rfl matched

/-- It answers whether the node could be eliminated, and leaves the journal. The
kind of elimination that was made is not reported on. -/
theorem identityElimination_apply (id : NodeId) (progress : Progress α) :
    (identityElimination : Pass α).apply id progress =
      ((Graph.eliminateNode id 0 progress.graph).1.map fun _ => true,
        ⟨(Graph.eliminateNode id 0 progress.graph).2, progress.journal⟩) := by
  show (Progress.onGraph (Graph.eliminateNode id 0) >>= fun _ => pure true) progress = _
  rcases eliminated : Graph.eliminateNode id 0 progress.graph with ⟨_ | done, after⟩ <;>
    simp [bind_apply, andThen, Progress.onGraph_apply, eliminated, Except.map]

/-- It changes a sound graph at every identity node. At rest there are none left,
then. -/
theorem Graph.Sound.identityElimination_changes (sound : graph.Sound) {node : Node α}
    (found : graph.node id = some node) (kind : node.kind = .identity) :
    (identityElimination : Pass α).Changes graph id := by
  obtain ⟨source, reads, typed⟩ := sound.identity_input found kind
  obtain ⟨done, after, eliminated, -⟩ := sound.eliminate_identity found kind
  have one := sound.fresh.single id node found
  refine ⟨?_, Journal.fresh, ⟨after, Journal.fresh⟩, ?_⟩
  · have matched : (Pattern.identity.matchAt graph id).isSome = true := by
      simp [Pattern.matchAt, Pattern.identity, Pattern.ofKind, Pattern.ofTest, Pattern.labelled,
        Pattern.layOn, Pattern.layAll, found, Pattern.admits, KindTest.accepts, kind,
        Binding.bindLabel, Binding.get, Binding.start]
    have bridged : graph.canEliminate id 0 = true := canEliminate_iff.mpr
      ⟨node, source, found, by simp [kind, one], by simp [reads], typed⟩
    exact Bool.and_eq_true_iff.mpr ⟨matched, bridged⟩
  · rw [identityElimination_apply, eliminated]
    rfl

/-- Eliminating identities is reliable, and nothing about sizes has to be known for
it. -/
theorem identityElimination_reliable : (identityElimination : Pass α).Reliable where
  verdict progress id sound admitted := by
    obtain ⟨node, found, kind⟩ := identity_of_admits admitted
    obtain ⟨done, after, eliminated, soundAfter, fewer, inherits⟩ :=
      sound.eliminate_identity found kind
    have applied : (identityElimination : Pass α).apply id progress =
        (.ok true, ⟨after, progress.journal⟩) := by
      rw [identityElimination_apply, eliminated]
      rfl
    exact .changes applied soundAfter fewer inherits
  fewer progress id after sound applied := by
    rw [identityElimination_apply] at applied
    rcases eliminated : Graph.eliminateNode id 0 progress.graph with ⟨failure | done, middle⟩ <;>
      rw [eliminated] at applied
    · cases applied
    · obtain ⟨-, rfl⟩ := Prod.mk.inj applied
      have counted := sound.live_eliminateNode eliminated
      show middle.live < progress.graph.live
      omega
  answer id graph first second := by rw [identityElimination_apply, identityElimination_apply]
  live graph id admitted := by
    obtain ⟨node, found, -⟩ := identity_of_admits admitted
    exact ⟨node, found⟩
  applicable graph id admitted := by
    obtain ⟨node, found, kind⟩ := identity_of_admits admitted
    have present := Graph.hasKind_of_node found
    rwa [kind] at present

end Elimination

end RangeFold
