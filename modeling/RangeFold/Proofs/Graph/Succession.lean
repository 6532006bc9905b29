import RangeFold.Proofs.Graph.Substitution

/-!
# Succession

What a substitution leaves, node by node. A new node has come in for another one, whose readers
read the new one now in the order in which they were, and some nodes that hung on the old one have
gone with it. All other nodes are as they were but for their edges: an input that read the old
value reads the new one, readers that have gone are struck from the lists of readers, and the new
node is entered where it reads.
-/

namespace RangeFold

open Relation

variable {α : Type}

namespace Node

/-- Every input that reads one value reads another one instead. -/
def reread (previous target : OutputRef) (node : Node α) : Node α :=
  { node with inputs := node.inputs.map fun source =>
      if source = previous then target else source }

/-- What a node reads does not enter the types it states. They are stored with its
outputs. -/
@[simp] theorem reread_outputTypes (previous target : OutputRef) (node : Node α) :
    (node.reread previous target).outputTypes = node.outputTypes := rfl

/-- The lists of consumers are edited by one change after the other as by both at
once. The same is known of whole graphs. -/
theorem relist_relist (first second : OutputRef → List Consumer → List Consumer) (id : NodeId)
    (node : Node α) : (node.relist first id).relist second id =
      node.relist (fun source readers => second source (first source readers)) id := by
  simp [relist, List.mapIdx_mapIdx, Function.comp_def]

/-- Which inputs move can be told from what they read. A redirection from a value
moves exactly the inputs that read it. -/
theorem repoint_eq_reread {previous target : OutputRef} {move : Consumer → OutputRef → OutputRef}
    {id : NodeId} {node : Node α} (agree : ∀ input source, node.inputs[input]? = some source →
      move ⟨id, input⟩ source = if source = previous then target else source) :
    node.repoint move id = node.reread previous target := by
  have same : node.repoint move id =
      node.repoint (fun _ source => if source = previous then target else source) id :=
    node.repoint_congr move id agree
  rw [same, repoint, reread]
  congr 1
  exact List.ext_getElem? fun input => by simp

end Node

namespace Graph

variable {graph : Graph α} {id : NodeId} {node : Node α} {target : OutputRef}

/-- Readers that move change their inputs, and whatever is gone reads nothing any
more. The description is node by node and has every field of the node. -/
theorem node_spliced_cleared (rest : List NodeId) (other : NodeId) :
    ((graph.spliced id node target).cleared rest).node other =
      if other ∈ id :: rest then none else (graph.node other).map fun found =>
        (found.relist (fun source readers =>
          (movedReaders ⟨id, 0⟩ target node.consumers source readers).filter fun reader =>
            reader.node ∉ id :: rest) other).repoint (movedSource target node.consumers) other := by
  rw [node_cleared, spliced, node_detach, node_redirect]
  by_cases gone : other = id
  · simp [gone]
  · by_cases goneToo : other ∈ rest
    · simp [goneToo]
    · simp only [gone, goneToo, List.mem_cons, or_self, if_false, Option.map_map]
      congr 1
      funext found
      simp [Node.relist, Node.repoint, List.mapIdx_mapIdx, Function.comp_def, List.filter_filter,
        Bool.and_comm]

/-- A new name is all that renaming changes about the nodes. The other nodes are not
touched at all. -/
theorem node_of_renameNode {name : String} {after : Graph α}
    (renamed : renameNode id name graph = (.ok (), after)) (other : NodeId) :
    after.node other = (graph.node other).map fun node =>
      if other = id then { node with name := name } else node := by
  rcases renameNode_cases graph id name with ⟨failure, failed⟩ | own | ⟨node, found, -, relabelled⟩
  · cases (Prod.mk.inj (failed.symm.trans renamed)).1
  · obtain rfl := (Prod.mk.inj (own.symm.trans renamed)).2
    obtain ⟨node, found, named⟩ := nameAt_eq_some_iff.mp (nameAt_of_renameNode renamed)
    by_cases same : other = id
    · subst same
      rw [found, Option.map_some, if_pos rfl]
      cases node
      cases named
      rfl
    · simp [same]
  · obtain rfl := (Prod.mk.inj (relabelled.symm.trans renamed)).2
    exact node_relabel other

/-- The nodes that are left when an heir at the next place has come in for a node and some nodes
are gone. -/
def successor (graph : Graph α) (id : NodeId) (gone : List NodeId) (heir : Node α)
    (other : NodeId) : Option (Node α) :=
  if other = graph.arena.length then some heir
  else if other ∈ gone then none
  else (graph.node other).map fun node =>
    (node.relist (fun source readers =>
      (readers ++ arrivals graph.arena.length heir.inputs source).filter fun reader =>
        reader.node ∉ gone) other).reread ⟨id, 0⟩ (.first graph.arena.length)

variable {rest : List NodeId} {kind : OpKind} {label : String} {inputs : List OutputRef}
  {type : TensorType} {attributes : Attributes α}

/-- A new node of a single output seen after an edit of the reader lists: as it was
built, with the readers the edit gives it. -/
theorem relist_newNode (change : OutputRef → List Consumer → List Consumer) (place : NodeId) :
    (newNode kind label inputs [type] attributes).relist change place =
      ⟨kind, label, inputs, [⟨type, change ⟨place, 0⟩ []⟩], attributes⟩ := rfl

/-- A new node in the place of one whose readers stay, without the nodes that go
with it. It puts together the attachment, the move of the readers and the removals,
in this order. -/
theorem Sound.node_succession [Arithmetic α] (sound : graph.Sound)
    (found : graph.node id = some node) (old : graph.arena.length ∉ rest)
    (stay : ∀ reader, graph.Feeds id reader → reader ∉ id :: rest) (other : NodeId) :
    (((graph.attach (newNode kind label inputs [type] attributes)).spliced id node
      (.first graph.arena.length)).cleared rest).node other =
        graph.successor id (id :: rest)
          ⟨kind, label, inputs, [⟨type, node.consumers⟩], attributes⟩ other := by
  have reading (consumer : Consumer) :
      consumer ∈ node.consumers ↔ graph.Reads consumer ⟨id, 0⟩ := by
    obtain ⟨slot, _, readers, output⟩ := sound.fresh.single.consumers found
    rw [readers, sound.linked.listed _ slot output]
  rw [node_spliced_cleared, successor]
  -- The new node is described by its own fields, an old one by what it was.
  by_cases new : other = graph.arena.length
  · subst new
    have elder (consumer : Consumer) (listed : consumer ∈ node.consumers) :
        consumer.node ≠ graph.arena.length := by
      obtain ⟨reader, live, -⟩ := (reading consumer).mp listed
      exact ne_of_node live
    have stays : node.consumers.filter (fun reader => reader.node ∉ id :: rest) =
        node.consumers :=
      List.filter_eq_self.mpr fun consumer listed => by
        simpa using stay consumer.node ⟨consumer.input, 0, (reading consumer).mp listed⟩
    have younger : graph.arena.length ∉ id :: rest := by
      simpa [old] using (ne_of_node found).symm
    rw [if_neg younger, if_pos rfl, node_attach_new, Option.map_some, relist_newNode,
      Node.repoint_eq_self]
    · have moved : movedReaders ⟨id, 0⟩ (.first graph.arena.length) node.consumers
          ⟨graph.arena.length, 0⟩ [] = node.consumers := by simp [movedReaders, OutputRef.first]
      rw [moved, stays]
    · exact fun input source _ => if_neg fun listed => elder _ listed rfl
  · rw [if_neg new, node_attach_old new]
    split
    · rfl
    · rename_i stays
      rw [Option.map_map]
      cases live : graph.node other with
      | none => rfl
      | some found =>
        refine congrArg some ?_
        have elsewhere : other ≠ id := fun same => stays (same ▸ List.mem_cons_self)
        rw [Function.comp_apply, Node.relist_relist]
        refine (Node.repoint_eq_reread ?_).trans (congrArg (Node.reread _ _) ?_)
        · intro input source listed
          have reads : graph.Reads ⟨other, input⟩ source := ⟨found, live, listed⟩
          have moves : (⟨other, input⟩ : Consumer) ∈ node.consumers ↔ source = ⟨id, 0⟩ :=
            (reading _).trans ⟨fun own => reads.unique own, fun own => own ▸ reads⟩
          simp only [movedSource, moves]
        · refine found.relist_congr _ other fun slot output _ => ?_
          simp [movedReaders, OutputRef.first, elsewhere, new, newNode]

/-- An heir that reads nothing takes the place of nodes that read one another only: the other nodes
keep their readers. -/
theorem Linked.successor_eq (linked : graph.Linked) {gone : List NodeId}
    (closed : ∀ producer, ∀ reader ∈ gone, graph.Feeds producer reader → producer ∈ gone)
    {heir : Node α} (inputs : heir.inputs = []) (other : NodeId) :
    graph.successor id gone heir other =
      if other = graph.arena.length then some heir
      else if other ∈ gone then none
      else (graph.node other).map (Node.reread ⟨id, 0⟩ (.first graph.arena.length)) := by
  unfold successor
  split
  · rfl
  · split
    · rfl
    · rename_i stays
      cases found : graph.node other with
      | none => rfl
      | some node =>
        rw [Option.map_some, Option.map_some, node.relist_eq_self]
        intro slot output listed
        have unmoved : arrivals graph.arena.length heir.inputs ⟨other, slot⟩ = [] := by
          rw [inputs]
          rfl
        rw [unmoved, List.append_nil, List.filter_eq_self]
        intro consumer member
        have placed : graph.outputSlot ⟨other, slot⟩ = some output :=
          outputSlot_eq_some_iff.mpr ⟨node, found, listed⟩
        have reads := (linked.listed _ output placed consumer).mp member
        simpa using fun among => stays
          (closed other consumer.node among ⟨consumer.input, slot, reads⟩)

/-- A node that is left has no readers any more if all that it had are gone and the heir reads
something else. -/
theorem Sound.isUnused_succession [Arithmetic α] (sound : graph.Sound) {gone : List NodeId}
    {heir : Node α} {after : Graph α} {other : NodeId} (found : graph.node other = some node)
    (young : graph.arena.length ∉ gone) (stays : other ∉ gone)
    (left : after.node other = graph.successor id gone heir other) :
    after.isUnused other = true ↔
      (∀ reader, graph.Feeds other reader → reader ∈ gone) ∧ ⟨other, 0⟩ ∉ heir.inputs := by
  obtain ⟨slot, outputs, readers, -⟩ := sound.fresh.single.consumers found
  have reading (reader : NodeId) :
      graph.Feeds other reader ↔ ∃ consumer ∈ slot.consumers, consumer.node = reader := by
    rw [← sound.linked.mem_readers_iff, Graph.readers, found, ← readers]
    simp
  have arriving : (∀ consumer ∈ arrivals graph.arena.length heir.inputs ⟨other, 0⟩,
      consumer.node ∈ gone) ↔ ⟨other, 0⟩ ∉ heir.inputs := by
    constructor
    · intro within listed
      obtain ⟨input, placed⟩ := List.getElem?_of_mem listed
      exact young (within ⟨graph.arena.length, input⟩ (mem_arrivals_iff.mpr ⟨rfl, placed⟩))
    · intro none consumer arrives
      exact absurd (List.mem_of_getElem? (mem_arrivals_iff.mp arrives).2) none
  rw [successor, if_neg (ne_of_node found), if_neg stays, found] at left
  have emptied : after.isUnused other = true ↔
      (slot.consumers ++ arrivals graph.arena.length heir.inputs ⟨other, 0⟩).filter
        (fun reader => reader.node ∉ gone) = [] := by
    rw [isUnused, consumerCount, left]
    simp [Node.reread, Node.relist, Node.consumerCount, outputs]
  rw [emptied, List.filter_eq_nil_iff]
  simp only [decide_eq_true_eq, not_not, List.mem_append, or_imp, forall_and, arriving, reading,
    forall_exists_index, and_imp, forall_apply_eq_imp_iff₂]

/-- The heir takes over the name. With this the description of the whole replacement
is complete. -/
theorem node_renamed_heir {gone : List NodeId} {outputs : List OutputSlot} {name : String}
    {before after : Graph α} (renamed : renameNode graph.arena.length name before = (.ok (), after))
    (left : ∀ other, before.node other =
      graph.successor id gone ⟨kind, label, inputs, outputs, attributes⟩ other) (other : NodeId) :
    after.node other = graph.successor id gone ⟨kind, name, inputs, outputs, attributes⟩ other := by
  rw [node_of_renameNode renamed, left, successor, successor]
  by_cases new : other = graph.arena.length
  · rw [if_pos new, if_pos new, Option.map_some, if_pos new]
  · simp only [if_neg new]
    exact Option.map_id'

/-- A node whose value has the type has that value and its readers to show. So the
heir's outputs can be stated in terms of the node that it replaces. -/
theorem Sound.outputs_eq [Arithmetic α] (sound : graph.Sound) (found : graph.node id = some node)
    (typed : graph.outputType ⟨id, 0⟩ = some type) : [⟨type, node.consumers⟩] = node.outputs := by
  obtain ⟨slot, outputs, readers, output⟩ := sound.fresh.single.consumers found
  rw [outputType_eq_map, output, Option.map_some, Option.some.injEq] at typed
  rw [outputs, readers, ← typed]

end Graph

end RangeFold
