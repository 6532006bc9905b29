import RangeFold.Proofs.Pass.Provided

/-!
# Sessions

A graph is only ever built by calls: edits, and runs of pipelines over provided passes.
Calls may fail at any time and the session goes on with the graph they leave. Whatever
the calls and their outcomes, the graph is sound after each of them.
-/

namespace RangeFold

variable {α : Type} [Arithmetic α]

/-- What can be asked of a graph. A run continues a journal, which may be a fresh one. -/
inductive Call (α : Type) [Arithmetic α] where
  | add (kind : OpKind) (name : String) (inputs : List OutputRef) (attributes : Attributes α)
  | setInput (id : NodeId) (input : Nat) (source : OutputRef)
  | replace (id : NodeId) (outputs : List OutputRef)
  | remove (id : NodeId)
  | rename (id : NodeId) (name : String)
  | prune
  | eliminate (id : NodeId) (input : Nat)
  | removeChain (chain : List NodeId)
  | run (pipeline : Pipeline α) (journal : Journal)
      (provided : ∀ planned ∈ pipeline.passes, planned.pass.Provided)

namespace Call

/-- The graph that a call leaves, whether it succeeds or fails. -/
def perform : Call α → Graph α → Graph α
  | add kind name inputs attributes, graph => (Graph.addNode kind name inputs attributes graph).2
  | setInput id input source, graph => (Graph.setInput id input source graph).2
  | replace id outputs, graph => (Graph.replaceNode id outputs graph).2
  | remove id, graph => (Graph.removeNode id graph).2
  | rename id name, graph => (Graph.renameNode id name graph).2
  | prune, graph => (Graph.prune graph).2
  | eliminate id input, graph => (Graph.eliminateNode id input graph).2
  | removeChain chain, graph => (Graph.removeChain chain graph).2
  | run pipeline journal _, graph => (pipeline.runFrom ⟨graph, journal⟩).2.graph

/-- The graph after a sequence of calls. -/
def performAll (calls : List (Call α)) (graph : Graph α) : Graph α :=
  calls.foldl (fun graph call => call.perform graph) graph

/-- A single call keeps what edits keep. A call that fails is one of its cases. -/
theorem perform_keeps {property : Graph α → Prop} (survives : Graph.SurvivesEdits property)
    (call : Call α) {graph : Graph α} (holds : property graph) : property (call.perform graph) := by
  cases call with
  | add kind name inputs attributes =>
    exact survives.addNode kind name inputs attributes graph holds
  | setInput id input source => exact survives.setInput id input source graph holds
  | replace id outputs => exact survives.replaceNode id outputs graph holds
  | remove id => exact survives.removeNode id graph holds
  | rename id name => exact survives.renameNode id name graph holds
  | prune => exact survives.prune graph holds
  | eliminate id input => exact survives.eliminateNode id input graph holds
  | removeChain chain => exact survives.removeChain chain graph holds
  | run pipeline journal provided =>
    exact Pipeline.keeps_runFrom
      (fun planned listed => (provided planned listed).keeps survives) survives.prune
      ⟨graph, journal⟩ holds

/-- So does a sequence of calls. By induction on the calls. -/
theorem performAll_keeps_of {property : Graph α → Prop} (survives : Graph.SurvivesEdits property)
    (calls : List (Call α)) {graph : Graph α} (holds : property graph) :
    property (performAll calls graph) := by
  induction calls generalizing graph with
  | nil => exact holds
  | cons call rest inductionHypothesis =>
    exact inductionHypothesis (call.perform_keeps survives holds)

/-- Sessions keep graphs sound, call by call. -/
theorem performAll_keeps (calls : List (Call α)) {graph : Graph α} (sound : graph.Sound) :
    (performAll calls graph).Sound := performAll_keeps_of Graph.sound_survives calls sound

end Call

namespace Graph

/-- The graph without nodes is sound. There is nothing in it to be out of order. -/
theorem empty_sound : (Graph.empty : Graph α).Sound where
  linked := {
    produced := fun _ _ ⟨_, found, _⟩ => by simp [Graph.node, empty] at found
    once := fun _ _ found => by simp [outputSlot, Graph.node, empty] at found
    listed := fun _ _ found => by simp [outputSlot, Graph.node, empty] at found }
  indexed := {
    namesOnce := List.nodup_nil
    names := fun _ _ => by simp [Graph.node, empty]
    live := rfl
    parametersOrdered := List.Pairwise.nil
    parameters := fun _ => by simp [Graph.node, empty]
    resultsOrdered := List.Pairwise.nil
    results := fun _ => by simp [Graph.node, empty] }
  acyclic _ cycle := by
    obtain ⟨_, ⟨_, _, _, found, _⟩, _⟩ := Relation.TransGen.head'_iff.mp cycle
    simp [Graph.node, empty] at found
  fresh _ _ found := by simp [Graph.node, empty] at found

/-- A graph that some session leads to. -/
def Reachable (graph : Graph α) : Prop := ∃ calls : List (Call α), Call.performAll calls empty = graph

/-- A session can go on. Whatever the call does, and whether or not it fails. -/
theorem Reachable.call {graph : Graph α} (reachable : graph.Reachable) (call : Call α) :
    (call.perform graph).Reachable := by
  obtain ⟨calls, rfl⟩ := reachable
  exact ⟨calls ++ [call], by simp [Call.performAll]⟩

/-- What holds of the graph without nodes and survives every edit holds of every graph that a
session leads to. -/
theorem Reachable.of_edits {property : Graph α → Prop} (survives : SurvivesEdits property)
    (start : property empty) {graph : Graph α} (reachable : graph.Reachable) : property graph := by
  obtain ⟨calls, rfl⟩ := reachable
  exact Call.performAll_keeps_of survives calls start

/-- Whatever a session leads to from the empty graph is sound. -/
theorem Reachable.sound {graph : Graph α} (reachable : graph.Reachable) : graph.Sound := by
  obtain ⟨calls, rfl⟩ := reachable
  exact Call.performAll_keeps calls empty_sound

/-- After every call of every session the graph is sound: edges are known at both ends,
the indices are those of the live nodes, there is no cycle and all types are inferred. -/
theorem session_sound (calls : List (Call α)) : (Call.performAll calls empty).Sound :=
  Call.performAll_keeps calls empty_sound

end Graph

end RangeFold
