import RangeFold.Proofs.Graph.Places
import RangeFold.Proofs.Typing.Labels
import RangeFold.Graph.Retyping
import Mathlib.Logic.Relation

/-!
# Sound graphs

A graph is sound when its bookkeeping says what its nodes say. The parts are kept
apart because an edit breaks some of them for a while: after an edge has moved the
graph is linked and indexed, but its types are not yet fresh.

Linked: every input reads an output that exists, and the readers an output lists are
the inputs that read it, each once. Indexed: names, parameters, results and the live
count are those of the live nodes. Acyclic: no node feeds itself, directly or through
others. Fresh: the types stored at a node are those its rule infers from the types
stored at its inputs.
-/

namespace RangeFold

variable {α : Type}

/-- Looking every item up succeeds with the values a table has for the items, and only
if it has one for each. -/
theorem mapM_eq_ok_iff {β γ : Type} {lookUp : β → Except Failure γ} {table : β → Option γ}
    (answers : ∀ item value, lookUp item = .ok value ↔ table item = some value)
    (items : List β) (values : List γ) :
    items.mapM lookUp = .ok values ↔ items.map table = values.map some := by
  induction items generalizing values with
  | nil => cases values <;> simp [pure, Except.pure]
  | cons item rest inductionHypothesis =>
    rw [List.mapM_cons]
    cases first : lookUp item with
    | error failure =>
      have absent (value : γ) : table item ≠ some value := by
        intro present
        simp [(answers item value).mpr present] at first
      cases values <;> simp [bind, Except.bind, absent]
    | ok value =>
      have present : table item = some value := (answers item value).mp first
      cases others : rest.mapM lookUp with
      | error failure =>
        have incomplete (tail : List γ) : rest.map table ≠ tail.map some := by
          intro complete
          simp [(inductionHypothesis tail).mpr complete] at others
        cases values <;> simp [bind, Except.bind, incomplete]
      | ok tail =>
        have complete : rest.map table = tail.map some := (inductionHypothesis tail).mp others
        cases values <;>
          simp [present, complete, bind, Except.bind, pure, Except.pure,
            List.map_inj_right (fun _ _ => Option.some.inj)]

/-- The rule of the node yields the output types from input types that an assignment
gives to the values it reads. -/
def Node.Infers [Arithmetic α] (node : Node α) (types : OutputRef → Option TensorType)
    (outputs : List TensorType) : Prop :=
  ∃ inputs, node.inputs.map types = inputs.map some ∧
    inferOutputs node.kind node.name inputs node.attributes = .ok outputs

namespace Node.Infers

variable [Arithmetic α] {node : Node α} {types other : OutputRef → Option TensorType}
  {outputs : List TensorType}

/-- Only the types of the values that the node reads matter. Two assignments that
agree on them cannot be told apart by the node. -/
theorem congr (infers : node.Infers types outputs)
    (agree : ∀ source ∈ node.inputs, other source = types source) : node.Infers other outputs := by
  obtain ⟨inputs, known, typed⟩ := infers
  exact ⟨inputs, (List.map_congr_left agree).trans known, typed⟩

/-- Every inference gives one type, as every kind of node has a single output. -/
theorem length (infers : node.Infers types outputs) : outputs.length = 1 := by
  obtain ⟨_, _, typed⟩ := infers
  exact inferOutputs_length typed

/-- The rule yields one list of types. Inference is a function of kind, inputs and
attributes. -/
theorem unique {second : List TensorType} (infers : node.Infers types outputs)
    (again : node.Infers types second) : outputs = second := by
  obtain ⟨inputs, known, typed⟩ := infers
  obtain ⟨inputsAgain, knownAgain, typedAgain⟩ := again
  have same : inputs = inputsAgain :=
    (List.map_inj_right fun _ _ => Option.some.inj).mp (known.symm.trans knownAgain)
  subst same
  exact Except.ok.inj (typed.symm.trans typedAgain)

/-- A node under another name, with the same inputs and attributes, is typed alike.
The name stands in messages only. -/
theorem rename (infers : node.Infers types outputs) (name : String) :
    ({ node with name := name } : Node α).Infers types outputs := by
  obtain ⟨inputs, known, typed⟩ := infers
  exact ⟨inputs, known, inferOutputs_rename typed name⟩

end Node.Infers

namespace Graph

/-- A value of the first node is read by the second. -/
def Feeds (graph : Graph α) (producer reader : NodeId) : Prop :=
  ∃ input slot, graph.Reads ⟨reader, input⟩ ⟨producer, slot⟩

/-- The two ends of every edge know of each other. -/
structure Linked (graph : Graph α) : Prop where
  produced : ∀ consumer source, graph.Reads consumer source →
    ∃ slot, graph.outputSlot source = some slot
  once : ∀ source slot, graph.outputSlot source = some slot → slot.consumers.Nodup
  listed : ∀ source slot, graph.outputSlot source = some slot →
    ∀ consumer, consumer ∈ slot.consumers ↔ graph.Reads consumer source

/-- The indices of a graph are those of its live nodes. -/
structure Indexed (graph : Graph α) : Prop where
  namesOnce : (graph.names.map Prod.fst).Nodup
  names : ∀ name id, (name, id) ∈ graph.names ↔
    ∃ node, graph.node id = some node ∧ node.name = name
  live : graph.live = graph.nodes.length
  parametersOrdered : graph.parameters.Pairwise (· < ·)
  parameters : ∀ id, id ∈ graph.parameters ↔
    ∃ node, graph.node id = some node ∧ node.kind = .parameter
  resultsOrdered : graph.results.Pairwise (· < ·)
  results : ∀ id, id ∈ graph.results ↔ ∃ node, graph.node id = some node ∧ node.kind = .result

/-- No node feeds itself, directly or through others. -/
def Acyclic (graph : Graph α) : Prop := ∀ id, ¬ Relation.TransGen graph.Feeds id id

/-- The stored types are those that the rules infer. -/
def Fresh [Arithmetic α] (graph : Graph α) : Prop :=
  ∀ id node, graph.node id = some node → node.Infers graph.outputType node.outputTypes

/-- Every node has one output. -/
def Single (graph : Graph α) : Prop :=
  ∀ id node, graph.node id = some node → node.outputs.length = 1

/-- All that a session keeps of a graph. -/
structure Sound [Arithmetic α] (graph : Graph α) : Prop where
  linked : graph.Linked
  indexed : graph.Indexed
  acyclic : graph.Acyclic
  fresh : graph.Fresh

/-- The collected types of a list of sources are the types the graph reports for
them, in order, and the collection succeeds only if all of them are reported. -/
theorem typesOf_eq_ok_iff {graph : Graph α} {name : String} {sources : List OutputRef}
    {types : List TensorType} :
    graph.typesOf name sources = .ok types ↔ sources.map graph.outputType = types.map some := by
  apply mapM_eq_ok_iff
  intro source type
  cases graph.outputType source <;> simp

/-- Every rule yields one type, so every node of a freshly typed graph has one
output. No rule gives two, although nodes could hold more. -/
theorem Fresh.single [Arithmetic α] {graph : Graph α} (fresh : graph.Fresh) : graph.Single := by
  intro id node found
  have counted := (fresh id node found).length
  rwa [Node.outputTypes, List.length_map] at counted

/-- A node of one output is read where that output is read. The count of consumers
is the length of one list then. -/
theorem Single.consumers {graph : Graph α} (single : graph.Single) {id : NodeId} {node : Node α}
    (found : graph.node id = some node) :
    ∃ slot, node.outputs = [slot] ∧ node.consumers = slot.consumers ∧
      graph.outputSlot ⟨id, 0⟩ = some slot := by
  obtain ⟨slot, sole⟩ := List.length_eq_one_iff.mp (single id node found)
  refine ⟨slot, sole, by simp [Node.consumers, sole], ?_⟩
  exact outputSlot_eq_some_iff.mpr ⟨node, found, by rw [sole]; rfl⟩

end Graph

end RangeFold
