import RangeFold.Proofs.Steps
import RangeFold.Proofs.Graph.Sound

/-!
# Links

Entering a reader and striking one change nothing but one list of readers. Both are
cases of one change of all reader lists, which neither touches what an input reads
nor any type, name or kind; so whatever depends on those alone is not affected by
links, and two changes of links in a row are one.
-/

namespace RangeFold

variable {α : Type}

namespace Graph

/-- Looking a node up changes nothing and keeps whatever held. -/
theorem keeps_getNode {property : Graph α → Prop} (id : NodeId) :
    Attempt.Keeps property (getNode id : Attempt (Graph α) (Node α)) := fun _ holds => holds

/-- Asking for a live node answers with it, for an empty place it fails. The graph
is only looked at. -/
theorem getNode_of_node {graph : Graph α} {id : NodeId} {node : Node α}
    (found : graph.node id = some node) : getNode id graph = (.ok node, graph) := by
  rw [getNode, nodeAt_of_node found]

/-- Looking up a free id is refused, and the graph stays as it was. -/
theorem getNode_of_none {graph : Graph α} {id : NodeId} (empty : graph.node id = none) :
    getNode id graph = (.error (.deadNode id), graph) := by
  simp [getNode, nodeAt, empty]

/-- A change of nodes in place that keeps kinds and names keeps the indices. Kinds
and names are all that the indices record. -/
theorem Indexed.mapNodes {graph : Graph α} (indexed : graph.Indexed)
    {change : NodeId → Node α → Node α} (kind : ∀ id node, (change id node).kind = node.kind)
    (name : ∀ id node, (change id node).name = node.name) :
    (graph.mapNodes change).Indexed where
  namesOnce := indexed.namesOnce
  names label id := by
    rw [exists_node_mapNodes]
    simp only [name]
    exact indexed.names label id
  live := by rw [nodes_length_mapNodes, ← indexed.live]; rfl
  parametersOrdered := indexed.parametersOrdered
  parameters id := by
    rw [exists_node_mapNodes]
    simp only [kind]
    exact indexed.parameters id
  resultsOrdered := indexed.resultsOrdered
  results id := by
    rw [exists_node_mapNodes]
    simp only [kind]
    exact indexed.results id

/-- Change the readers of every value, as a function of the value they read. -/
def relist (graph : Graph α) (change : OutputRef → List Consumer → List Consumer) : Graph α :=
  graph.mapNodes (Node.relist change)

section Relist

variable (graph : Graph α) (change next : OutputRef → List Consumer → List Consumer)

/-- Editing reader lists leaves the name index. -/
@[simp] theorem names_relist : (graph.relist change).names = graph.names := rfl

/-- Editing reader lists leaves the list of parameters. -/
@[simp] theorem parameters_relist : (graph.relist change).parameters = graph.parameters := rfl

/-- Editing reader lists leaves the list of results. -/
@[simp] theorem results_relist : (graph.relist change).results = graph.results := rfl

/-- Editing reader lists neither adds nor drops a position of the arena. -/
@[simp] theorem arena_length_relist :
    (graph.relist change).arena.length = graph.arena.length :=
  arena_length_mapNodes graph _

/-- Editing reader lists keeps every live node live. -/
theorem nodes_length_relist : (graph.relist change).nodes.length = graph.nodes.length :=
  nodes_length_mapNodes graph _

/-- An edit of the reader lists is seen slot by slot: the type stays and the readers
are those the edit gives for that source. -/
theorem outputSlot_relist (source : OutputRef) : (graph.relist change).outputSlot source =
    (graph.outputSlot source).map fun slot =>
      { slot with consumers := change source slot.consumers } := by
  simp only [outputSlot, relist, node_mapNodes]
  cases graph.node source.node with
  | none => rfl
  | some node => exact node.relist_output change source.node source.slot

/-- Editing reader lists leaves every type, which is what inference reads. -/
@[simp] theorem outputType_relist : (graph.relist change).outputType = graph.outputType := by
  funext source
  rw [outputType_eq_map, outputType_eq_map, outputSlot_relist, Option.map_map]
  rfl

/-- What nodes read stands in their inputs, so an edit of reader lists leaves it
alone. The two sides of an edge can therefore be edited one after the other. -/
@[simp] theorem reads_relist {consumer : Consumer} {source : OutputRef} :
    (graph.relist change).Reads consumer source ↔ graph.Reads consumer source := by
  simp only [Reads, relist, exists_node_mapNodes, Node.relist_inputs]

/-- Two edits of the reader lists are one edit by their composition. -/
theorem relist_relist : (graph.relist change).relist next =
    graph.relist fun source readers => next source (change source readers) := by
  rw [relist, relist, mapNodes_mapNodes]
  apply mapNodes_congr
  intro id node _
  simp [Node.relist, List.mapIdx_mapIdx, Function.comp_def]

variable {graph change next}

/-- Changes that agree on the readers of every live value have one outcome. What
they do for sources without a slot is never asked. -/
theorem relist_congr (agree : ∀ source slot, graph.outputSlot source = some slot →
    change source slot.consumers = next source slot.consumers) :
    graph.relist change = graph.relist next := by
  apply mapNodes_congr
  intro id node found
  apply Node.relist_congr
  intro slot output listed
  exact agree ⟨id, slot⟩ output (outputSlot_eq_some_iff.mpr ⟨node, found, listed⟩)

/-- An edit that gives every existing list back is the identity on graphs. Only
sources with a slot have to be considered. -/
theorem relist_eq_self (fixed : ∀ source slot, graph.outputSlot source = some slot →
    change source slot.consumers = slot.consumers) : graph.relist change = graph := by
  apply mapNodes_eq_self
  intro id node found
  apply Node.relist_eq_self
  intro slot output listed
  exact fixed ⟨id, slot⟩ output (outputSlot_eq_some_iff.mpr ⟨node, found, listed⟩)

/-- The name index and the interface lists do not mention readers. -/
theorem Indexed.relist (indexed : graph.Indexed)
    (change : OutputRef → List Consumer → List Consumer) : (graph.relist change).Indexed :=
  indexed.mapNodes (fun _ _ => rfl) fun _ _ => rfl

end Relist

/-- A change of one output's readers is a change of all that spares the others. This
turns single edits into the form that composes. -/
theorem modifySlot_eq_relist (graph : Graph α) (target : OutputRef)
    (change : List Consumer → List Consumer) :
    (graph.modifySlot target fun slot => { slot with consumers := change slot.consumers }) =
      graph.relist fun source readers => if source = target then change readers else readers := by
  rw [modifySlot, modifyNode_eq_mapNodes, relist]
  apply mapNodes_congr
  intro id node _
  by_cases place : id = target.node
  · rw [if_pos place, Node.relist]
    congr 1
    apply List.ext_getElem?
    intro slot
    rw [List.getElem?_modify, List.getElem?_mapIdx]
    have same : (⟨id, slot⟩ : OutputRef) = target ↔ target.slot = slot := by
      constructor
      · rintro rfl
        rfl
      · rintro rfl
        exact place ▸ rfl
    by_cases slotted : target.slot = slot <;> simp [same, slotted]
  · rw [if_neg place]
    symm
    apply Node.relist_eq_self
    intro slot output _
    apply if_neg
    rintro rfl
    exact place rfl

/-- The outcome of entering a reader of a live value. The reader comes last in the
list of its value. -/
theorem link_eq {graph : Graph α} {source : OutputRef} {slot : OutputSlot}
    (live : graph.outputSlot source = some slot) (consumer : Consumer) :
    link source consumer graph = (.ok (), graph.relist fun value readers =>
      if value = source then readers ++ [consumer] else readers) := by
  rw [link, slotAt_eq_ok_iff.mpr live, ← modifySlot_eq_relist]

/-- The outcome of striking a listed reader. The first occurrence goes, and there is
no second in a linked graph. -/
theorem unlink_eq {graph : Graph α} {source : OutputRef} {slot : OutputSlot} {consumer : Consumer}
    (live : graph.outputSlot source = some slot) (listed : consumer ∈ slot.consumers) :
    unlink source consumer graph = (.ok (), graph.relist fun value readers =>
      if value = source then readers.erase consumer else readers) := by
  have contained : slot.consumers.contains consumer = true := List.contains_iff_mem.mpr listed
  rw [unlink, slotAt_eq_ok_iff.mpr live, ← modifySlot_eq_relist]
  simp only [contained, if_true]

end Graph

end RangeFold
