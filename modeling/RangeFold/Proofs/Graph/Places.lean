import RangeFold.Graph.Edit

/-!
# Places of a graph

A graph is known by the node at each of its places and by its bookkeeping. Every
change to nodes in place is a map over the places, so two changes in a row are one
change, and two changes agree when they agree at every live node.

The single changes of an edit are such maps. What they do to a node's reading and
read ends is stated at the end: one function says which value an input comes to
read, another what becomes of the readers of a value.
-/

namespace RangeFold

variable {α : Type}

namespace Graph

/-- Graphs with equally many places, the same node at each and the same bookkeeping
are the same. -/
theorem ext_of_node {left right : Graph α} (places : left.arena.length = right.arena.length)
    (node : ∀ id, left.node id = right.node id) (names : left.names = right.names)
    (parameters : left.parameters = right.parameters) (results : left.results = right.results)
    (live : left.live = right.live) : left = right := by
  have arena : left.arena = right.arena := by
    apply List.ext_getElem?
    intro id
    have same : left.arena[id]?.join = right.arena[id]?.join := node id
    by_cases inside : id < left.arena.length
    · have insideRight : id < right.arena.length := places ▸ inside
      rw [List.getElem?_eq_getElem inside, List.getElem?_eq_getElem insideRight] at same ⊢
      exact congrArg some same
    · have outside : left.arena.length ≤ id := Nat.le_of_not_lt inside
      rw [List.getElem?_eq_none outside, List.getElem?_eq_none (places ▸ outside)]
  cases left
  cases right
  simp_all

/-- No node stands beyond the end of the arena. -/
theorem node_of_le {graph : Graph α} {id : NodeId} (outside : graph.arena.length ≤ id) :
    graph.node id = none := by
  simp [Graph.node, List.getElem?_eq_none outside]

/-- A live node lies within the arena. Ids beyond it have not been given out yet. -/
theorem lt_of_node {graph : Graph α} {id : NodeId} {node : Node α}
    (found : graph.node id = some node) : id < graph.arena.length := by
  apply Nat.lt_of_not_le
  intro outside
  simp [node_of_le outside] at found

/-- The checked lookup answers a live node. -/
theorem nodeAt_of_node {graph : Graph α} {id : NodeId} {node : Node α}
    (found : graph.node id = some node) : graph.nodeAt id = .ok node := by
  simp [nodeAt, found]

/-- The checked lookup answers exactly the live nodes. -/
theorem nodeAt_eq_ok_iff {graph : Graph α} {id : NodeId} {node : Node α} :
    graph.nodeAt id = .ok node ↔ graph.node id = some node := by
  cases found : graph.node id <;> simp [nodeAt, found]

/-- The checked lookup has a single way to fail, and it names the id that was asked
for. -/
theorem nodeAt_eq_error_iff {graph : Graph α} {id : NodeId} {failure : Failure} :
    graph.nodeAt id = .error failure ↔ graph.node id = none ∧ failure = .deadNode id := by
  cases found : graph.node id <;> simp [nodeAt, found, eq_comm]

/-- The listed nodes are the live ones, each under its place. Most statements about
all nodes are brought to this form. -/
theorem mem_nodes_iff {graph : Graph α} {id : NodeId} {node : Node α} :
    (id, node) ∈ graph.nodes ↔ graph.node id = some node := by
  simp only [nodes, List.mem_filterMap, Prod.exists, List.mk_mem_zipIdx_iff_getElem?]
  constructor
  · rintro ⟨entry, place, stored, listed⟩
    cases entry with
    | none => simp at listed
    | some found =>
      obtain ⟨rfl, rfl⟩ : place = id ∧ found = node := by simpa using listed
      simp [Graph.node, stored]
  · intro found
    obtain ⟨entry, stored, joined⟩ : ∃ entry, graph.arena[id]? = some entry ∧ entry = some node := by
      simpa [Graph.node, Option.join_eq_some_iff] using found
    exact ⟨entry, id, stored, by simp [joined]⟩

/-- The listed ids are those of the live nodes: freed positions are skipped. -/
theorem mem_nodeIds_iff {graph : Graph α} {id : NodeId} :
    id ∈ graph.nodeIds ↔ ∃ node, graph.node id = some node := by
  simp [nodeIds, mem_nodes_iff]

/-- Numbering the entries of an arena and dropping the freed ones leaves as many
pairs as there are filled entries, wherever the numbering starts. -/
theorem filterMap_zipIdx_length {β : Type} (entries : List (Option β)) (start : Nat) :
    ((entries.zipIdx start).filterMap fun (entry, id) => entry.map fun node => (id, node)).length =
      entries.countP Option.isSome := by
  induction entries generalizing start with
  | nil => rfl
  | cons entry rest inductionHypothesis =>
    cases entry <;> simp [List.zipIdx_cons, inductionHypothesis]

/-- There are as many listed nodes as occupied places. This is the number that the
counter of live nodes keeps. -/
theorem nodes_length (graph : Graph α) : graph.nodes.length = graph.arena.countP Option.isSome :=
  filterMap_zipIdx_length graph.arena 0

/-- Apply a change to every node, which may depend on the node's place. -/
def mapNodes (graph : Graph α) (change : NodeId → Node α → Node α) : Graph α :=
  { graph with arena := graph.arena.mapIdx fun id entry => entry.map (change id) }

/-- A change in place is seen node by node; it neither frees nor fills a position. -/
@[simp] theorem node_mapNodes (graph : Graph α) (change : NodeId → Node α → Node α)
    (id : NodeId) : (graph.mapNodes change).node id = (graph.node id).map (change id) := by
  simp only [Graph.node, mapNodes, List.getElem?_mapIdx]
  cases graph.arena[id]? <;> simp

/-- A change in place leaves the arena its length, and so the next id the same. -/
@[simp] theorem arena_length_mapNodes (graph : Graph α) (change : NodeId → Node α → Node α) :
    (graph.mapNodes change).arena.length = graph.arena.length := by
  simp [mapNodes]

/-- Mapping filled entries to filled entries keeps their number. The arena version
of the fact that a map keeps the length. -/
theorem mapIdx_countP {β : Type} (entries : List (Option β)) (change : Nat → β → β) :
    (entries.mapIdx fun id entry => entry.map (change id)).countP Option.isSome =
      entries.countP Option.isSome := by
  induction entries generalizing change with
  | nil => rfl
  | cons entry rest inductionHypothesis =>
    rw [List.mapIdx_cons, List.countP_cons, List.countP_cons,
      inductionHypothesis fun id => change (id + 1)]
    simp

/-- A change in place neither adds nor removes a node. The counter of live nodes
stays right without being touched. -/
theorem nodes_length_mapNodes (graph : Graph α) (change : NodeId → Node α → Node α) :
    (graph.mapNodes change).nodes.length = graph.nodes.length := by
  rw [nodes_length, nodes_length]
  exact mapIdx_countP graph.arena change

/-- Changes that agree at every live node have one outcome. Freed places have no
node to change. -/
theorem mapNodes_congr {graph : Graph α} {first second : NodeId → Node α → Node α}
    (agree : ∀ id node, graph.node id = some node → first id node = second id node) :
    graph.mapNodes first = graph.mapNodes second := by
  refine ext_of_node (by simp) ?_ rfl rfl rfl rfl
  intro id
  rw [node_mapNodes, node_mapNodes]
  cases found : graph.node id with
  | none => rfl
  | some node => exact congrArg some (agree id node found)

/-- A change that leaves every live node as it is leaves the graph as it is. Undoing
an edit is shown in this way. -/
theorem mapNodes_eq_self {graph : Graph α} {change : NodeId → Node α → Node α}
    (fixed : ∀ id node, graph.node id = some node → change id node = node) :
    graph.mapNodes change = graph := by
  refine ext_of_node (by simp) ?_ rfl rfl rfl rfl
  intro id
  rw [node_mapNodes]
  cases found : graph.node id with
  | none => rfl
  | some node => exact congrArg some (fixed id node found)

/-- A property of some node after a change in place is the changed property of some
node before it. The index lemmas use this to move invariants across edits. -/
theorem exists_node_mapNodes {graph : Graph α} {change : NodeId → Node α → Node α} {id : NodeId}
    {property : Node α → Prop} :
    (∃ node, (graph.mapNodes change).node id = some node ∧ property node) ↔
      ∃ node, graph.node id = some node ∧ property (change id node) := by
  rw [node_mapNodes]
  cases graph.node id <;> simp

/-- Two changes in a row are one. A series of edits can thus be seen as a single
one. -/
theorem mapNodes_mapNodes (graph : Graph α) (first second : NodeId → Node α → Node α) :
    (graph.mapNodes first).mapNodes second =
      graph.mapNodes fun id node => second id (first id node) := by
  refine ext_of_node (by simp) ?_ rfl rfl rfl rfl
  intro id
  simp only [node_mapNodes, Option.map_map, Function.comp_def]

/-- A change of one node is a change of all that spares the others. The lemmas about
changes in place then apply to it. -/
theorem modifyNode_eq_mapNodes (graph : Graph α) (id : NodeId) (change : Node α → Node α) :
    graph.modifyNode id change =
      graph.mapNodes fun place node => if place = id then change node else node := by
  refine ext_of_node (by simp [modifyNode]) ?_ rfl rfl rfl rfl
  intro place
  rw [node_mapNodes]
  simp only [Graph.node, modifyNode, List.getElem?_modify]
  by_cases same : id = place
  · subst same
    cases graph.arena[id]? <;> simp
  · have other : place ≠ id := Ne.symm same
    cases graph.arena[place]? <;> simp [same, other]

/-- The output a value stands for, if its node is live and has it. -/
def outputSlot (graph : Graph α) (source : OutputRef) : Option OutputSlot :=
  (graph.node source.node).bind fun node => node.outputs[source.slot]?

/-- The type of a source is the type of the slot it names. -/
theorem outputType_eq_map (graph : Graph α) (source : OutputRef) :
    graph.outputType source = (graph.outputSlot source).map OutputSlot.type := by
  simp only [outputType, outputSlot, Node.outputType]
  cases graph.node source.node <;> rfl

/-- The checked slot lookup answers exactly the slots that exist. -/
theorem slotAt_eq_ok_iff {graph : Graph α} {source : OutputRef} {slot : OutputSlot} :
    graph.slotAt source = .ok slot ↔ graph.outputSlot source = some slot := by
  cases found : graph.node source.node with
  | none => simp [slotAt, nodeAt, outputSlot, found, bind, Except.bind]
  | some node =>
    cases listed : node.outputs[source.slot]? <;>
      simp [slotAt, nodeAt, outputSlot, found, listed, bind, Except.bind]

/-- A slot exists when its node is live and has that many outputs. -/
theorem outputSlot_eq_some_iff {graph : Graph α} {source : OutputRef} {slot : OutputSlot} :
    graph.outputSlot source = some slot ↔
      ∃ node, graph.node source.node = some node ∧ node.outputs[source.slot]? = some slot := by
  simp [outputSlot, Option.bind_eq_some_iff]

/-- The input reads the value: its node is live and lists the value there. -/
def Reads (graph : Graph α) (consumer : Consumer) (source : OutputRef) : Prop :=
  ∃ node, graph.node consumer.node = some node ∧ node.inputs[consumer.input]? = some source

instance (graph : Graph α) (consumer : Consumer) (source : OutputRef) :
    Decidable (graph.Reads consumer source) :=
  decidable_of_iff
    (((graph.node consumer.node).bind fun node => node.inputs[consumer.input]?) = some source)
    Option.bind_eq_some_iff

/-- An input reads one value. The relation is a function of the consumer. -/
theorem Reads.unique {graph : Graph α} {consumer : Consumer} {first second : OutputRef}
    (reads : graph.Reads consumer first) (other : graph.Reads consumer second) :
    first = second := by
  obtain ⟨node, found, listed⟩ := reads
  obtain ⟨same, foundAgain, listedAgain⟩ := other
  obtain rfl : node = same := Option.some.inj (found.symm.trans foundAgain)
  exact Option.some.inj (listed.symm.trans listedAgain)

end Graph

namespace Node

/-- The types of a node, read one by one or as a list, are the same. -/
theorem outputType_eq (node : Node α) (slot : Nat) :
    node.outputType slot = node.outputTypes[slot]? := by
  simp [outputType, outputTypes]

/-- Change the readers of each output, as a function of the value they read. -/
def relist (change : OutputRef → List Consumer → List Consumer) (id : NodeId) (node : Node α) :
    Node α :=
  { node with outputs := node.outputs.mapIdx fun slot output =>
      { output with consumers := change ⟨id, slot⟩ output.consumers } }

/-- Change the values that the inputs read, as a function of the reading input. -/
def repoint (change : Consumer → OutputRef → OutputRef) (id : NodeId) (node : Node α) : Node α :=
  { node with inputs := node.inputs.mapIdx fun input source => change ⟨id, input⟩ source }

/-- Change the types of all outputs. -/
def retyped (types : List TensorType) (node : Node α) : Node α :=
  { node with outputs := node.outputs.mapIdx fun slot output =>
      { output with type := types.getD slot output.type } }

variable (change : OutputRef → List Consumer → List Consumer)
  (move : Consumer → OutputRef → OutputRef) (types : List TensorType) (id : NodeId) (node : Node α)

/-- Editing reader lists leaves the kind of the node. -/
@[simp] theorem relist_kind : (node.relist change id).kind = node.kind := rfl

/-- Editing reader lists leaves the name of the node. -/
@[simp] theorem relist_name : (node.relist change id).name = node.name := rfl

/-- Editing reader lists leaves what the node itself reads. -/
@[simp] theorem relist_inputs : (node.relist change id).inputs = node.inputs := rfl

/-- Editing reader lists leaves the attributes of the node. -/
@[simp] theorem relist_attributes : (node.relist change id).attributes = node.attributes := rfl

/-- Types do not depend on who reads the values. Typing is therefore blind to edits
of reader lists. -/
@[simp] theorem relist_outputTypes : (node.relist change id).outputTypes = node.outputTypes := by
  apply List.ext_getElem?
  intro slot
  simp [outputTypes, relist, Function.comp_def]

/-- Editing reader lists changes each output in its consumers alone, by the edit for
that output. -/
theorem relist_output (slot : Nat) : (node.relist change id).outputs[slot]? =
    (node.outputs[slot]?).map fun output =>
      { output with consumers := change ⟨id, slot⟩ output.consumers } := by
  simp [relist]

/-- Changes that agree on the readers of each output have one outcome. Other nodes'
outputs are not asked about. -/
theorem relist_congr {next : OutputRef → List Consumer → List Consumer}
    (agree : ∀ slot output, node.outputs[slot]? = some output →
      change ⟨id, slot⟩ output.consumers = next ⟨id, slot⟩ output.consumers) :
    node.relist change id = node.relist next id := by
  have outputs : (node.relist change id).outputs = (node.relist next id).outputs := by
    apply List.ext_getElem?
    intro slot
    rw [relist_output, relist_output]
    cases listed : node.outputs[slot]? with
    | none => rfl
    | some output => simp only [Option.map_some, agree slot output listed]
  simpa [relist] using outputs

/-- Leaving the readers of each output as they are leaves the node as it is. It is
enough to look at the outputs that are there. -/
theorem relist_eq_self (fixed : ∀ slot output, node.outputs[slot]? = some output →
    change ⟨id, slot⟩ output.consumers = output.consumers) : node.relist change id = node := by
  have outputs : (node.relist change id).outputs = node.outputs := by
    apply List.ext_getElem?
    intro slot
    rw [relist_output]
    cases listed : node.outputs[slot]? with
    | none => rfl
    | some output => simp only [Option.map_some, fixed slot output listed]
  cases node
  simpa [relist] using outputs

/-- Redirecting inputs leaves the kind of the node. -/
@[simp] theorem repoint_kind : (node.repoint move id).kind = node.kind := rfl

/-- Redirecting inputs leaves the name of the node. -/
@[simp] theorem repoint_name : (node.repoint move id).name = node.name := rfl

/-- Redirecting inputs leaves the outputs of the node, types and readers alike. -/
@[simp] theorem repoint_outputs : (node.repoint move id).outputs = node.outputs := rfl

/-- Redirecting inputs leaves the attributes of the node. -/
@[simp] theorem repoint_attributes : (node.repoint move id).attributes = node.attributes := rfl

/-- Redirecting inputs leaves the output types as they are recorded. Whether they
are still inferred is a separate question. -/
@[simp] theorem repoint_outputTypes : (node.repoint move id).outputTypes = node.outputTypes := rfl

/-- Each input moves on its own, by the redirection asked about that very consumer. -/
theorem repoint_input (input : Nat) : (node.repoint move id).inputs[input]? =
    (node.inputs[input]?).map fun source => move ⟨id, input⟩ source := by
  simp [repoint]

/-- Changes that agree on the value of each input have one outcome. Two descriptions
of one move are matched in this way. -/
theorem repoint_congr {next : Consumer → OutputRef → OutputRef}
    (agree : ∀ input source, node.inputs[input]? = some source →
      move ⟨id, input⟩ source = next ⟨id, input⟩ source) :
    node.repoint move id = node.repoint next id := by
  have inputs : (node.repoint move id).inputs = (node.repoint next id).inputs := by
    apply List.ext_getElem?
    intro input
    rw [repoint_input, repoint_input]
    cases listed : node.inputs[input]? with
    | none => rfl
    | some source => simp only [Option.map_some, agree input source listed]
  simpa [repoint] using inputs

/-- Leaving the value of each input as it is leaves the node as it is. It is enough
to look at the inputs that are there. -/
theorem repoint_eq_self (fixed : ∀ input source, node.inputs[input]? = some source →
    move ⟨id, input⟩ source = source) : node.repoint move id = node := by
  have inputs : (node.repoint move id).inputs = node.inputs := by
    apply List.ext_getElem?
    intro input
    rw [repoint_input]
    cases listed : node.inputs[input]? with
    | none => rfl
    | some source => simp only [Option.map_some, fixed input source listed]
  cases node
  simpa [repoint] using inputs

/-- Writing types back leaves the kind of the node. -/
@[simp] theorem retyped_kind : (node.retyped types).kind = node.kind := rfl

/-- Writing types back leaves the name of the node. -/
@[simp] theorem retyped_name : (node.retyped types).name = node.name := rfl

/-- Writing types back leaves what the node reads. -/
@[simp] theorem retyped_inputs : (node.retyped types).inputs = node.inputs := rfl

/-- Writing types back leaves the attributes of the node. -/
@[simp] theorem retyped_attributes : (node.retyped types).attributes = node.attributes := rfl

/-- Writing types back replaces the type of each output for which one is listed and
keeps every reader list. -/
theorem retyped_output (slot : Nat) : (node.retyped types).outputs[slot]? =
    (node.outputs[slot]?).map fun output =>
      { output with type := types.getD slot output.type } := by
  simp [retyped]

/-- As many types as outputs become the types of the outputs. With fewer types the
last outputs would keep their own. -/
theorem retyped_outputTypes (sized : types.length = node.outputs.length) :
    (node.retyped types).outputTypes = types := by
  apply List.ext_getElem?
  intro slot
  simp only [outputTypes, List.getElem?_map, retyped_output, Option.map_map]
  by_cases inside : slot < types.length
  · have listed : slot < node.outputs.length := sized ▸ inside
    simp [List.getElem?_eq_getElem inside, List.getElem?_eq_getElem listed]
  · have outside : types.length ≤ slot := Nat.le_of_not_lt inside
    simp [List.getElem?_eq_none outside, List.getElem?_eq_none (sized ▸ outside)]

/-- Stating the types that the outputs have changes nothing. A retyping that finds
nothing new leaves the node. -/
theorem retyped_self : node.retyped node.outputTypes = node := by
  have outputs : (node.retyped node.outputTypes).outputs = node.outputs := by
    apply List.ext_getElem?
    intro slot
    rw [retyped_output]
    cases listed : node.outputs[slot]? <;> simp [outputTypes, listed]
  cases node
  simpa [retyped] using outputs

end Node

end RangeFold
