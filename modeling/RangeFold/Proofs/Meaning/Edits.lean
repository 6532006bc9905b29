import RangeFold.Proofs.Meaning.Evaluation
import RangeFold.Proofs.Graph.Rewiring

/-!
# Meaning and edits

Which edits do not change what a graph computes. Adding a node, removing one that
nothing reads and renaming one leave the values of all other nodes alone. Moving readers
to another value does so if that value is the same array under every interpretation.

Two graphs are compared at their interface: entries and exits are the same nodes under
the same names and of the same types, and every exit has the same value.
-/

namespace RangeFold

variable {α : Type}

namespace Graph

section Values

variable [Arithmetic α] {graph after : Graph α} {interpretation : Interpretation α}
  {assignment : Assignment α}

/-- The values of one graph are those of another wherever they satisfy its
equations. All edits are compared in this way: the old values are shown to solve the
new equations. -/
theorem value_eq_of_valueFrom (linked : graph.Linked) (acyclic : graph.Acyclic)
    (linkedAfter : after.Linked) (acyclicAfter : after.Acyclic) (within : NodeId → Prop)
    (closed : ∀ producer reader, after.Feeds producer reader → within reader → within producer)
    (same : ∀ id, within id →
      after.valueFrom interpretation assignment (graph.value interpretation assignment) id =
        graph.valueFrom interpretation assignment (graph.value interpretation assignment) id)
    {id : NodeId} (member : within id) :
    after.value interpretation assignment id = graph.value interpretation assignment id := by
  apply value_unique linkedAfter acyclicAfter closed _ member
  intro place inside
  rw [same place inside]
  exact value_eq_valueFrom linked acyclic place

/-- A node changed in its name and its readers alone has the same equation, and so has
one that reads other values for which the same arrays are known. -/
theorem valueFrom_of_node {change : Node α → Node α} {values : NodeId → Option (Tensor α)}
    {id : NodeId} (placed : after.node id = (graph.node id).map change)
    (kind : ∀ node, (change node).kind = node.kind)
    (attributes : ∀ node, (change node).attributes = node.attributes)
    (types : ∀ node, (change node).outputTypes = node.outputTypes)
    (inputs : ∀ node, graph.node id = some node →
      (change node).inputs.map (inputValue values) = node.inputs.map (inputValue values)) :
    after.valueFrom interpretation assignment values id =
      graph.valueFrom interpretation assignment values id := by
  unfold valueFrom
  rw [placed]
  cases found : graph.node id with
  | none => rfl
  | some node =>
    apply Node.valueFrom_congr (kind node) (attributes node) _ (inputs node found)
    rw [Node.outputType_eq, Node.outputType_eq, types]

/-- A new node does not change the values of the others. None of them reads it. -/
theorem Sound.value_attach (sound : graph.Sound) {node : Node α}
    (soundAfter : (graph.attach node).Sound)
    (live : ∀ source ∈ node.inputs, ∃ slot, graph.outputSlot source = some slot) {id : NodeId}
    (old : id ≠ graph.arena.length) : (graph.attach node).value interpretation assignment id =
      graph.value interpretation assignment id := by
  refine value_eq_of_valueFrom sound.linked sound.acyclic soundAfter.linked soundAfter.acyclic
    (· ≠ graph.arena.length) (fun _ _ feeds _ => sound.linked.feeds_attach_old live feeds) ?_ old
  intro place inside
  exact valueFrom_of_node (node_attach_old inside) (fun _ => rfl) (fun _ => rfl)
    (fun _ => Node.relist_outputTypes _ _ _) fun _ _ => rfl

/-- The removal of a node does not change the values of the others. None of them has
read it. -/
theorem Sound.value_detach (sound : graph.Sound) {id : NodeId} {name : String}
    (soundAfter : (graph.detach id name).Sound) (unread : ∀ reader, ¬ graph.Feeds id reader)
    {other : NodeId} (stays : other ≠ id) :
    (graph.detach id name).value interpretation assignment other =
      graph.value interpretation assignment other := by
  refine value_eq_of_valueFrom sound.linked sound.acyclic soundAfter.linked soundAfter.acyclic
    (· ≠ id) (fun producer reader feeds _ => ?_) ?_ stays
  · rintro rfl
    exact unread reader (feeds_of_detach feeds)
  · intro place inside
    have placed := node_detach graph id name place
    rw [if_neg inside] at placed
    exact valueFrom_of_node placed (fun _ => rfl) (fun _ => rfl)
      (fun _ => Node.relist_outputTypes _ _ _) fun _ _ => rfl

/-- A new name does not change any value. Names of inputs are bound by place and not
by name. -/
theorem Sound.value_relabel (sound : graph.Sound) {id : NodeId} {old new : String}
    (soundAfter : (graph.relabel id old new).Sound) (other : NodeId) :
    (graph.relabel id old new).value interpretation assignment other =
      graph.value interpretation assignment other := by
  refine value_eq_of_valueFrom sound.linked sound.acyclic soundAfter.linked soundAfter.acyclic
    (fun _ => True) (fun _ _ _ _ => trivial) ?_ trivial
  intro place _
  refine valueFrom_of_node (node_relabel place) ?_ ?_ ?_ ?_
  all_goals
    intro node
    by_cases named : place = id <;> simp [named, Node.outputTypes]

/-- Moving readers to a value that is the same array changes no value. Each moved
reader finds the array that it found before, and so do the nodes behind it. -/
theorem Sound.value_redirect (sound : graph.Sound) {previous target : OutputRef}
    {moved : List Consumer} (redirectable : graph.Redirectable previous target moved)
    (equal : inputValue (graph.value interpretation assignment) target =
      inputValue (graph.value interpretation assignment) previous) (id : NodeId) :
    (graph.redirect previous target moved).value interpretation assignment id =
      graph.value interpretation assignment id := by
  refine value_eq_of_valueFrom sound.linked sound.acyclic
    (redirectable.linked sound.linked)
    (redirectable.acyclic sound.acyclic)
    (fun _ => True) (fun _ _ _ _ => trivial) ?_ trivial
  intro place _
  refine valueFrom_of_node (node_redirect place) (fun _ => rfl) (fun _ => rfl) (by simp) ?_
  intro node found
  have same := map_repoint_inputs equal redirectable.reading found
  exact same

end Values

end Graph

end RangeFold
