import RangeFold.Proofs.Graph.Acyclic

/-!
# Attachment

What adding a node comes to: its inputs are entered among the readers of the values
they read, and the node takes the next free place. Nothing reads it yet, so it closes
no cycle, and it changes nothing that another node depends on.
-/

namespace RangeFold

open Relation

variable {α : Type}

namespace Graph

/-- The inputs of a node at a place that read the value. -/
def arrivals (id : NodeId) (inputs : List OutputRef) (source : OutputRef) : List Consumer :=
  ((inputEdges id inputs).filter fun (read, _) => read = source).map Prod.snd

/-- The edges of an input list are its entries, each paired with the input that
holds it. A source listed twice gives two edges with two consumers. -/
theorem mem_inputEdges_iff {id : NodeId} {inputs : List OutputRef} {source : OutputRef}
    {consumer : Consumer} : (source, consumer) ∈ inputEdges id inputs ↔
      consumer.node = id ∧ inputs[consumer.input]? = some source := by
  obtain ⟨place, input⟩ := consumer
  simp only [inputEdges, List.mem_map, Prod.exists, List.mk_mem_zipIdx_iff_getElem?,
    Prod.mk.injEq, Consumer.mk.injEq]
  constructor
  · rintro ⟨read, index, listed, rfl, rfl, rfl⟩
    exact ⟨rfl, listed⟩
  · rintro ⟨rfl, listed⟩
    exact ⟨source, input, listed, rfl, rfl, rfl⟩

/-- A new node arrives at a source once for every input that names it, and as no
other consumer. -/
theorem mem_arrivals_iff {id : NodeId} {inputs : List OutputRef} {source : OutputRef}
    {consumer : Consumer} : consumer ∈ arrivals id inputs source ↔
      consumer.node = id ∧ inputs[consumer.input]? = some source := by
  rw [← mem_inputEdges_iff]
  simp [arrivals]

/-- Each input of a node is one edge. The same source may occur in many of them,
told apart by the input. -/
theorem inputEdges_nodup (id : NodeId) (inputs : List OutputRef) :
    ((inputEdges id inputs).map Prod.snd).Nodup := by
  have places : (inputEdges id inputs).map Prod.snd =
      (List.range' 0 inputs.length).map fun input => (⟨id, input⟩ : Consumer) := by
    rw [inputEdges, List.map_map, ← List.zipIdx_map_snd, List.map_map]
    rfl
  rw [places]
  apply List.Nodup.map _ List.nodup_range'
  intro first second same
  exact (Consumer.mk.inj same).2

/-- No consumer arrives twice: arrivals at one source differ in their input number.
This is what keeps a reader list free of repetitions. -/
theorem arrivals_nodup (id : NodeId) (inputs : List OutputRef) (source : OutputRef) :
    (arrivals id inputs source).Nodup :=
  (inputEdges_nodup id inputs).sublist (List.filter_sublist.map Prod.snd)

/-- Entering edges in turn enters each reader at its value, in their order. The
whole loop is one edit of the reader lists, which the lemmas about attaching start
from. -/
theorem forEach_link_eq {graph : Graph α} {edges : List (OutputRef × Consumer)}
    (live : ∀ source consumer, (source, consumer) ∈ edges →
      ∃ slot, graph.outputSlot source = some slot) :
    Attempt.forEach (fun (source, consumer) => link source consumer) edges graph =
      (.ok (), graph.relist fun source readers =>
        readers ++ (edges.filter fun (read, _) => read = source).map Prod.snd) := by
  induction edges generalizing graph with
  | nil =>
    rw [Attempt.forEach_nil, relist_eq_self]
    intro source slot _
    simp
  | cons edge rest inductionHypothesis =>
    obtain ⟨source, consumer⟩ := edge
    obtain ⟨slot, produced⟩ := live source consumer List.mem_cons_self
    have others := @inductionHypothesis (graph.relist fun value readers =>
      if value = source then readers ++ [consumer] else readers) (by
        intro value reader member
        obtain ⟨old, foundOld⟩ := live value reader (List.mem_cons_of_mem _ member)
        exact ⟨_, by rw [outputSlot_relist, foundOld]; rfl⟩)
    rw [Attempt.forEach_cons, Attempt.bind_of_ok (link_eq produced consumer), others,
      relist_relist]
    congr 1
    apply relist_congr
    intro value readers _
    by_cases same : value = source
    · simp [same]
    · simp [same, Ne.symm same]

/-- Put a node at the next free place, reading the values it lists. -/
def attach (graph : Graph α) (node : Node α) : Graph α :=
  (graph.relist fun source readers =>
    readers ++ arrivals graph.arena.length node.inputs source).append node

section Attach

variable {graph : Graph α} {node : Node α}

/-- Appending a node fills the one position after the arena and leaves every other
position alone, freed ones included. -/
theorem node_append (graph : Graph α) (node : Node α) (id : NodeId) :
    (graph.append node).node id = if id = graph.arena.length then some node else graph.node id := by
  by_cases new : id = graph.arena.length
  · simp [Graph.node, append, new]
  · rw [if_neg new]
    by_cases inside : id < graph.arena.length
    · simp [Graph.node, append, List.getElem?_append_left inside]
    · have outside : graph.arena.length ≤ id := Nat.le_of_not_lt inside
      have beyond : (graph.append node).arena.length ≤ id := by
        have length : (graph.append node).arena.length = graph.arena.length + 1 := by
          simp [append]
        exact length ▸ Nat.lt_of_le_of_ne outside (Ne.symm new)
      rw [node_of_le outside, node_of_le beyond]

/-- The attached node stands under the new id exactly as it was given: no input
names the new id, so its own outputs gain no reader. -/
theorem node_attach_new (graph : Graph α) (node : Node α) :
    (graph.attach node).node graph.arena.length = some node := by
  rw [attach, node_append, if_pos (by simp)]

/-- An older node changes in its reader lists only, each extended by the arrivals at
that output. -/
theorem node_attach_old {id : NodeId} (old : id ≠ graph.arena.length) :
    (graph.attach node).node id = (graph.node id).map (Node.relist (fun source readers =>
      readers ++ arrivals graph.arena.length node.inputs source) id) := by
  rw [attach, node_append, if_neg (by simpa using old), relist, node_mapNodes]

/-- A live node is older than the next node to come, because ids are positions in
the arena. -/
theorem ne_of_node {id : NodeId} {found : Node α} (live : graph.node id = some found) :
    id ≠ graph.arena.length :=
  Nat.ne_of_lt (lt_of_node live)

/-- The reading relation grows by the inputs of the new node and by nothing else. -/
theorem reads_attach_iff {consumer : Consumer} {source : OutputRef} :
    (graph.attach node).Reads consumer source ↔ graph.Reads consumer source ∨
      (consumer.node = graph.arena.length ∧ node.inputs[consumer.input]? = some source) := by
  by_cases new : consumer.node = graph.arena.length
  · have absent : ¬ graph.Reads consumer source := by
      rintro ⟨found, live, _⟩
      exact ne_of_node live new
    rw [Reads, new, node_attach_new]
    simp [absent]
  · simp [Reads, new, node_attach_old]

/-- An output of an older node keeps its type; its reader list is extended at the
end, in the order of the new node's inputs. -/
theorem outputSlot_attach_old {source : OutputRef} (old : source.node ≠ graph.arena.length) :
    (graph.attach node).outputSlot source = (graph.outputSlot source).map fun slot =>
      { slot with consumers :=
          slot.consumers ++ arrivals graph.arena.length node.inputs source } := by
  simp only [outputSlot, node_attach_old old]
  cases graph.node source.node with
  | none => rfl
  | some found => exact found.relist_output _ source.node source.slot

/-- The outputs of the new node are those it was given, read back under the new id. -/
theorem outputSlot_attach_new (slot : Nat) :
    (graph.attach node).outputSlot ⟨graph.arena.length, slot⟩ = node.outputs[slot]? := by
  simp [outputSlot, node_attach_new]

/-- A live value stays live and keeps its type. The typing of older nodes therefore
carries over. -/
theorem outputType_attach {source : OutputRef} {slot : OutputSlot}
    (live : graph.outputSlot source = some slot) :
    (graph.attach node).outputType source = graph.outputType source := by
  obtain ⟨found, placed, _⟩ := outputSlot_eq_some_iff.mp live
  rw [outputType_eq_map, outputType_eq_map, outputSlot_attach_old (ne_of_node placed),
    Option.map_map]
  rfl

/-- A value whose type is known is live. Types are stored with outputs and nowhere
else. -/
theorem exists_outputSlot_of_outputType {source : OutputRef} {type : TensorType}
    (typed : graph.outputType source = some type) : ∃ slot, graph.outputSlot source = some slot := by
  rw [outputType_eq_map, Option.map_eq_some_iff] at typed
  obtain ⟨slot, live, _⟩ := typed
  exact ⟨slot, live⟩

/-- Values whose types are known are live. This is how the check of the input types
also guards the edges. -/
theorem exists_outputSlot_of_known {sources : List OutputRef} {types : List TensorType}
    (known : sources.map graph.outputType = types.map some) {source : OutputRef}
    (listed : source ∈ sources) : ∃ slot, graph.outputSlot source = some slot := by
  have member : graph.outputType source ∈ types.map some := known ▸ List.mem_map_of_mem listed
  obtain ⟨type, _, same⟩ := List.mem_map.mp member
  exact exists_outputSlot_of_outputType same.symm

/-- Once the types of a list of sources have been collected, every source of the
list names a live output. The collection fails at the first that does not. -/
theorem exists_outputSlot_of_typesOf {name : String} {sources : List OutputRef}
    {types : List TensorType} (typed : graph.typesOf name sources = .ok types)
    {source : OutputRef} (listed : source ∈ sources) :
    ∃ slot, graph.outputSlot source = some slot :=
  exists_outputSlot_of_known (typesOf_eq_ok_iff.mp typed) listed

/-- Attaching a node keeps inputs and reader lists in agreement, provided its
sources are live and its own outputs come without readers. -/
theorem Linked.attach (linked : graph.Linked)
    (live : ∀ source ∈ node.inputs, ∃ slot, graph.outputSlot source = some slot)
    (unread : ∀ output ∈ node.outputs, output.consumers = []) : (graph.attach node).Linked where
  produced consumer source reads := by
    have produced : ∃ slot, graph.outputSlot source = some slot := by
      rcases reads_attach_iff.mp reads with old | ⟨_, listed⟩
      · exact linked.produced consumer source old
      · exact live source (List.mem_of_getElem? listed)
    obtain ⟨slot, found⟩ := produced
    obtain ⟨producer, placed, _⟩ := outputSlot_eq_some_iff.mp found
    exact ⟨_, by rw [outputSlot_attach_old (ne_of_node placed), found]; rfl⟩
  once source slot found := by
    by_cases new : source.node = graph.arena.length
    · obtain ⟨producer, index⟩ := source
      subst new
      rw [outputSlot_attach_new] at found
      rw [unread slot (List.mem_of_getElem? found)]
      exact List.nodup_nil
    · rw [outputSlot_attach_old new] at found
      obtain ⟨old, foundOld, rfl⟩ := Option.map_eq_some_iff.mp found
      refine List.nodup_append.mpr ⟨linked.once source old foundOld, arrivals_nodup _ _ _, ?_⟩
      rintro consumer listed arriving arrives rfl
      obtain ⟨reader, placed, _⟩ := (linked.listed source old foundOld consumer).mp listed
      exact ne_of_node placed (mem_arrivals_iff.mp arrives).1
  listed source slot found consumer := by
    rw [reads_attach_iff]
    -- Nothing reads the new node, and an older output has gained the arrivals.
    by_cases new : source.node = graph.arena.length
    · obtain ⟨producer, index⟩ := source
      subst new
      rw [outputSlot_attach_new] at found
      have unborn : graph.outputSlot ⟨graph.arena.length, index⟩ = none := by
        simp [outputSlot, node_of_le (Nat.le_refl _)]
      rw [unread slot (List.mem_of_getElem? found)]
      constructor
      · intro listed
        exact absurd listed List.not_mem_nil
      · rintro (old | ⟨_, listed⟩)
        · obtain ⟨slot, produced⟩ := linked.produced _ _ old
          exact absurd (unborn.symm.trans produced) (by simp)
        · obtain ⟨slot, produced⟩ := live _ (List.mem_of_getElem? listed)
          exact absurd (unborn.symm.trans produced) (by simp)
    · rw [outputSlot_attach_old new] at found
      obtain ⟨old, foundOld, rfl⟩ := Option.map_eq_some_iff.mp found
      rw [List.mem_append, linked.listed source old foundOld consumer, mem_arrivals_iff]

/-- Nothing reads the new node. Its inputs are older than itself and no older node
knows its id. -/
theorem Linked.feeds_attach_old (linked : graph.Linked)
    (live : ∀ source ∈ node.inputs, ∃ slot, graph.outputSlot source = some slot)
    {producer reader : NodeId} (feeds : (graph.attach node).Feeds producer reader) :
    producer ≠ graph.arena.length := by
  obtain ⟨input, slot, reads⟩ := feeds
  have produced : ∃ output, graph.outputSlot ⟨producer, slot⟩ = some output := by
    rcases reads_attach_iff.mp reads with old | ⟨_, listed⟩
    · exact linked.produced _ _ old
    · exact live _ (List.mem_of_getElem? listed)
  obtain ⟨output, found⟩ := produced
  obtain ⟨found, placed, _⟩ := outputSlot_eq_some_iff.mp found
  exact ne_of_node placed

/-- No path leads on from the new node. A cycle would therefore lie among the older
nodes, where there is none. -/
theorem Acyclic.attach (linked : graph.Linked) (acyclic : graph.Acyclic)
    (live : ∀ source ∈ node.inputs, ∃ slot, graph.outputSlot source = some slot) :
    (graph.attach node).Acyclic := by
  have old (producer reader : NodeId) (feeds : (graph.attach node).Feeds producer reader) :
      producer ≠ graph.arena.length := linked.feeds_attach_old live feeds
  have path (start goal : NodeId) (leads : TransGen (graph.attach node).Feeds start goal) :
      goal = graph.arena.length ∨ TransGen graph.Feeds start goal := by
    induction leads with
    | single step =>
      obtain ⟨input, slot, reads⟩ := step
      rcases reads_attach_iff.mp reads with before | ⟨new, _⟩
      · exact Or.inr (TransGen.single ⟨input, slot, before⟩)
      · exact Or.inl new
    | tail _ step inductionHypothesis =>
      have through := inductionHypothesis.resolve_left (old _ _ step)
      obtain ⟨input, slot, reads⟩ := step
      rcases reads_attach_iff.mp reads with before | ⟨new, _⟩
      · exact Or.inr (through.tail ⟨input, slot, before⟩)
      · exact Or.inl new
  intro id cycle
  rcases path id id cycle with new | direct
  · obtain ⟨next, step, _⟩ := TransGen.head'_iff.mp cycle
    exact old id next step new
  · exact acyclic id direct

/-- The live nodes are those from before and the new one. The property must not look
at reader lists, as those of older nodes may have grown. -/
theorem exists_node_attach {id : NodeId} {property : Node α → Prop}
    (apart : ∀ change id found, property (Node.relist change id found) ↔ property found) :
    (∃ found, (graph.attach node).node id = some found ∧ property found) ↔
      (∃ found, graph.node id = some found ∧ property found) ∨
        (id = graph.arena.length ∧ property node) := by
  by_cases new : id = graph.arena.length
  · subst new
    simp [node_attach_new, node_of_le (Nat.le_refl _)]
  · rw [node_attach_old new]
    cases graph.node id <;> simp [new, apart]

/-- One more than before. The count of live nodes has to follow. -/
theorem nodes_length_attach : (graph.attach node).nodes.length = graph.nodes.length + 1 := by
  rw [attach, nodes_length, append, List.countP_append, ← nodes_length, nodes_length_relist]
  rfl

/-- A name is free if no entry of the index has it. The lookup stops at the first
entry of the name, so it would have found any. -/
theorem findName_eq_none_iff {name : String} :
    graph.findName name = none ↔ ∀ id, (name, id) ∉ graph.names := by
  rw [findName, List.lookup_eq_none_iff]
  constructor
  · intro apart id listed
    simpa using apart (name, id) listed
  · rintro absent ⟨other, id⟩ listed
    apply bne_iff_ne.mpr
    rintro rfl
    exact absent id listed

/-- Entering the new node in a list of the nodes of one kind keeps the list complete and
in order. -/
theorem enlist_iff {kind : OpKind} {ids : List NodeId} (ordered : ids.Pairwise (· < ·))
    (exact : ∀ id, id ∈ ids ↔ ∃ found, graph.node id = some found ∧ found.kind = kind) :
    (if node.kind = kind then ids ++ [graph.arena.length] else ids).Pairwise (· < ·) ∧
      ∀ id, (id ∈ if node.kind = kind then ids ++ [graph.arena.length] else ids) ↔
        ∃ found, (graph.attach node).node id = some found ∧ found.kind = kind := by
  have extended (id : NodeId) := @exists_node_attach α graph node id
    (fun found => found.kind = kind) (by simp)
  by_cases matching : node.kind = kind
  · simp only [if_pos matching]
    refine ⟨?_, ?_⟩
    · rw [List.pairwise_append]
      refine ⟨ordered, by simp, ?_⟩
      intro earlier listed later new
      obtain ⟨found, live, _⟩ := (exact earlier).mp listed
      rw [List.mem_singleton.mp new]
      exact lt_of_node live
    · intro id
      rw [extended, ← exact]
      simp [matching]
  · simp only [if_neg matching]
    refine ⟨ordered, ?_⟩
    intro id
    rw [extended, ← exact]
    simp [matching]

/-- The name index gains one entry, at its end. Older entries are not looked at
again. -/
theorem names_attach :
    (graph.attach node).names = graph.names ++ [(node.name, graph.arena.length)] := by
  simp [attach, append]

/-- The list of parameters grows exactly when the new node is a parameter. -/
theorem parameters_attach : (graph.attach node).parameters =
    if node.kind = .parameter then graph.parameters ++ [graph.arena.length]
    else graph.parameters := by
  simp [attach, append]

/-- The list of results grows exactly when the new node is a result. -/
theorem results_attach : (graph.attach node).results =
    if node.kind = .result then graph.results ++ [graph.arena.length] else graph.results := by
  simp [attach, append]

/-- The name index and the two interface lists keep agreeing with the live nodes, as
long as the name of the new node was free. -/
theorem Indexed.attach (indexed : graph.Indexed) (free : graph.findName node.name = none) :
    (graph.attach node).Indexed where
  namesOnce := by
    have unused : node.name ∉ graph.names.map Prod.fst := by
      intro member
      obtain ⟨⟨_, id⟩, listed, rfl⟩ := List.mem_map.mp member
      exact findName_eq_none_iff.mp free id listed
    rw [names_attach, List.map_append]
    exact List.Nodup.append indexed.namesOnce (by simp) (by simpa using unused)
  names name id := by
    rw [exists_node_attach (by simp), ← indexed.names, names_attach, List.mem_append,
      List.mem_singleton, Prod.mk.injEq]
    exact or_congr_right (and_comm.trans (and_congr_right fun _ => eq_comm))
  live := by
    rw [nodes_length_attach, ← indexed.live]
    rfl
  parametersOrdered := parameters_attach ▸
    (enlist_iff indexed.parametersOrdered indexed.parameters).1
  parameters := parameters_attach ▸
    (enlist_iff indexed.parametersOrdered indexed.parameters).2
  resultsOrdered := results_attach ▸ (enlist_iff indexed.resultsOrdered indexed.results).1
  results := results_attach ▸ (enlist_iff indexed.resultsOrdered indexed.results).2

/-- Old nodes read old values, whose types have not changed; the new node has the types
its rule yields. -/
theorem Fresh.attach [Arithmetic α] (linked : graph.Linked) (fresh : graph.Fresh)
    (typed : node.Infers graph.outputType node.outputTypes)
    (live : ∀ source ∈ node.inputs, ∃ slot, graph.outputSlot source = some slot) :
    (graph.attach node).Fresh := by
  intro id found placed
  by_cases new : id = graph.arena.length
  · subst new
    rw [node_attach_new] at placed
    obtain rfl : node = found := Option.some.inj placed
    apply typed.congr
    intro source listed
    obtain ⟨slot, produced⟩ := live source listed
    exact outputType_attach produced
  · rw [node_attach_old new] at placed
    obtain ⟨old, foundOld, rfl⟩ := Option.map_eq_some_iff.mp placed
    rw [Node.relist_outputTypes]
    apply (fresh id old foundOld).congr
    intro source listed
    obtain ⟨input, placed⟩ := List.getElem?_of_mem listed
    obtain ⟨slot, produced⟩ := linked.produced ⟨id, input⟩ source ⟨old, foundOld, placed⟩
    exact outputType_attach produced

/-- A node whose name is free, whose types are inferred from its inputs and whose
outputs nobody reads can be attached without breaking the invariants. Acyclicity
comes from its id, which no older node can name. -/
theorem Sound.attach [Arithmetic α] (sound : graph.Sound)
    (free : graph.findName node.name = none)
    (typed : node.Infers graph.outputType node.outputTypes)
    (unread : ∀ output ∈ node.outputs, output.consumers = []) : (graph.attach node).Sound := by
  have live : ∀ source ∈ node.inputs, ∃ slot, graph.outputSlot source = some slot := by
    obtain ⟨inputs, known, _⟩ := typed
    exact fun source => exists_outputSlot_of_known known
  exact ⟨sound.linked.attach live unread, sound.indexed.attach free,
    sound.acyclic.attach sound.linked live, sound.fresh.attach sound.linked typed live⟩

end Attach

/-- A node as it is added: typed, and not yet read. -/
def newNode (kind : OpKind) (name : String) (inputs : List OutputRef) (types : List TensorType)
    (attributes : Attributes α) : Node α :=
  ⟨kind, name, inputs, types.map fun type => ⟨type, []⟩, attributes⟩

/-- The freshly built node carries the inferred types, one output for each of them. -/
@[simp] theorem newNode_outputTypes (kind : OpKind) (name : String) (inputs : List OutputRef)
    (types : List TensorType) (attributes : Attributes α) :
    (newNode kind name inputs types attributes).outputTypes = types := by
  simp [newNode, Node.outputTypes, Function.comp_def]

section AddNode

variable [Arithmetic α] {graph : Graph α} {kind : OpKind} {name : String}
  {inputs : List OutputRef} {attributes : Attributes α}

/-- The built node infers the types it carries, read off the same input types the
graph reports. -/
theorem newNode_infers {inputTypes outputTypes : List TensorType}
    (known : inputs.map graph.outputType = inputTypes.map some)
    (typed : inferOutputs kind name inputTypes attributes = .ok outputTypes) :
    (newNode kind name inputs outputTypes attributes).Infers graph.outputType outputTypes :=
  ⟨inputTypes, known, typed⟩

/-- A node is added under a free name, if it reads live values and its rule accepts
their types. -/
theorem addNode_eq {inputTypes outputTypes : List TensorType}
    (free : graph.findName name = none)
    (known : inputs.map graph.outputType = inputTypes.map some)
    (typed : inferOutputs kind name inputTypes attributes = .ok outputTypes) :
    addNode kind name inputs attributes graph = (.ok graph.arena.length,
      graph.attach (newNode kind name inputs outputTypes attributes)) := by
  have linking := @forEach_link_eq α graph (inputEdges graph.arena.length inputs) (by
    intro source consumer member
    exact exists_outputSlot_of_known known
      (List.mem_of_getElem? (mem_inputEdges_iff.mp member).2))
  have unnamed : (graph.findName name).isSome = false := by rw [free]; rfl
  rw [addNode, Attempt.read_bind]
  simp only [unnamed, Bool.false_eq_true, if_false]
  rw [Attempt.lift_bind_of_ok (typesOf_eq_ok_iff.mpr known), Attempt.lift_bind_of_ok typed,
    Attempt.bind_of_ok linking]
  rfl

/-- A node is added, or nothing is changed. The second case has everything that was
checked and the graph that is left, so no later proof opens the definition. -/
theorem addNode_cases (graph : Graph α) (kind : OpKind) (name : String)
    (inputs : List OutputRef) (attributes : Attributes α) :
    (∃ failure, addNode kind name inputs attributes graph = (.error failure, graph)) ∨
      ∃ inputTypes outputTypes, graph.findName name = none ∧
        inputs.map graph.outputType = inputTypes.map some ∧
        inferOutputs kind name inputTypes attributes = .ok outputTypes ∧
        addNode kind name inputs attributes graph = (.ok graph.arena.length,
          graph.attach (newNode kind name inputs outputTypes attributes)) := by
  by_cases taken : (graph.findName name).isSome
  · refine Or.inl ⟨.nameTaken name, ?_⟩
    rw [addNode, Attempt.read_bind, if_pos taken]
    rfl
  · have free : graph.findName name = none := by simpa using taken
    cases known : graph.typesOf name inputs with
    | error failure =>
      refine Or.inl ⟨failure, ?_⟩
      rw [addNode, Attempt.read_bind, if_neg taken, Attempt.lift_bind_of_error known]
    | ok inputTypes =>
      have reads := typesOf_eq_ok_iff.mp known
      cases typed : inferOutputs kind name inputTypes attributes with
      | error failure =>
        refine Or.inl ⟨failure, ?_⟩
        rw [addNode, Attempt.read_bind, if_neg taken, Attempt.lift_bind_of_ok known,
          Attempt.lift_bind_of_error typed]
      | ok outputTypes =>
        exact Or.inr ⟨inputTypes, outputTypes, free, reads, typed, addNode_eq free reads typed⟩

/-- Adding a node keeps the graph sound. Each check that can refuse stands before
the first write, so only the accepting branch has an invariant to re-establish. -/
theorem keeps_addNode (kind : OpKind) (name : String) (inputs : List OutputRef)
    (attributes : Attributes α) :
    Attempt.Keeps Sound (addNode kind name inputs attributes) := by
  intro graph sound
  rcases addNode_cases graph kind name inputs attributes with
    ⟨failure, failed⟩ | ⟨inputTypes, outputTypes, free, known, typed, added⟩
  · rw [failed]
    exact sound
  · rw [added]
    refine sound.attach free ?_ ?_
    · rw [newNode_outputTypes]
      exact newNode_infers known typed
    · intro output member
      obtain ⟨type, _, rfl⟩ := List.mem_map.mp member
      rfl

end AddNode

end Graph

end RangeFold
