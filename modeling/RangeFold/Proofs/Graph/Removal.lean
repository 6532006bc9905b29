import RangeFold.Proofs.Graph.Attachment

/-!
# Removal and renaming

A node that nothing reads can be taken out: its inputs are struck from the readers of
the values they read, its place becomes empty, and no other node notices. A new name
touches nothing but the index.
-/

namespace RangeFold

variable {α : Type}

namespace Graph

/-- Striking listed edges in turn strikes them all. Each strike leaves the other
edges listed, as they are distinct. -/
theorem forEach_unlink_eq {graph : Graph α} {edges : List (OutputRef × Consumer)}
    (distinct : edges.Nodup)
    (once : ∀ source slot, graph.outputSlot source = some slot → slot.consumers.Nodup)
    (listed : ∀ source consumer, (source, consumer) ∈ edges →
      ∃ slot, graph.outputSlot source = some slot ∧ consumer ∈ slot.consumers) :
    Attempt.forEach (fun (source, consumer) => unlink source consumer) edges graph =
      (.ok (), graph.relist fun source readers =>
        readers.filter fun consumer => (source, consumer) ∉ edges) := by
  induction edges generalizing graph with
  | nil =>
    rw [Attempt.forEach_nil, relist_eq_self]
    intro source slot _
    simp
  | cons edge rest inductionHypothesis =>
    obtain ⟨source, consumer⟩ := edge
    obtain ⟨absent, distinctRest⟩ := List.nodup_cons.mp distinct
    obtain ⟨slot, produced, member⟩ := listed source consumer List.mem_cons_self
    -- What is known of the edges has to hold after the first has been struck.
    have others := @inductionHypothesis (graph.relist fun value readers =>
      if value = source then readers.erase consumer else readers) distinctRest (by
        intro value slot found
        rw [outputSlot_relist] at found
        obtain ⟨old, foundOld, rfl⟩ := Option.map_eq_some_iff.mp found
        show (if value = source then old.consumers.erase consumer else old.consumers).Nodup
        split
        · exact (once value old foundOld).erase consumer
        · exact once value old foundOld) (by
        intro value reader waits
        obtain ⟨old, foundOld, entered⟩ := listed value reader (List.mem_cons_of_mem _ waits)
        refine ⟨_, by rw [outputSlot_relist, foundOld]; rfl, ?_⟩
        show reader ∈ if value = source then old.consumers.erase consumer else old.consumers
        split
        · rename_i same
          subst same
          apply (List.mem_erase_of_ne _).mpr entered
          rintro rfl
          exact absent waits
        · exact entered)
    rw [Attempt.forEach_cons, Attempt.bind_of_ok (unlink_eq produced member), others,
      relist_relist]
    congr 1
    apply relist_congr
    intro value slot found
    by_cases same : value = source
    · subst same
      rw [if_pos rfl, List.Nodup.erase_eq_filter (once value slot found), List.filter_filter]
      apply List.filter_congr
      intro reader _
      by_cases again : reader = consumer <;> simp [again, bne]
    · rw [if_neg same]
      apply List.filter_congr
      intro reader _
      simp [same]

/-- Take a node out, with its inputs. -/
def detach (graph : Graph α) (id : NodeId) (name : String) : Graph α :=
  (graph.relist fun _ readers => readers.filter fun reader => reader.node ≠ id).vacate id name

section Detach

variable {graph : Graph α} {id : NodeId} {node : Node α}

/-- Taking a node out empties its position and drops it from the reader lists of all
the others. -/
theorem node_detach (graph : Graph α) (id : NodeId) (name : String) (other : NodeId) :
    (graph.detach id name).node other = if other = id then none else (graph.node other).map
      (Node.relist (fun _ readers => readers.filter fun reader => reader.node ≠ id) other) := by
  rw [← node_mapNodes]
  by_cases same : other = id
  · subst same
    by_cases inside : other < graph.arena.length
    · simp [Graph.node, detach, vacate, relist, mapNodes, inside]
    · have outside : graph.arena.length ≤ other := Nat.le_of_not_lt inside
      rw [if_pos rfl, node_of_le]
      simpa [detach, vacate, relist, mapNodes] using outside
  · simp [Graph.node, detach, vacate, relist, Ne.symm same, same]

/-- The list of parameters loses the removed id, and keeps its order. -/
theorem parameters_detach (graph : Graph α) (id : NodeId) (name : String) :
    (graph.detach id name).parameters = graph.parameters.filter (· ≠ id) := rfl

/-- The list of results loses the removed id, and keeps its order. -/
theorem results_detach (graph : Graph α) (id : NodeId) (name : String) :
    (graph.detach id name).results = graph.results.filter (· ≠ id) := rfl

/-- What the remaining nodes read is untouched; the removed node reads nothing any
more. -/
theorem reads_detach_iff {name : String} {consumer : Consumer} {source : OutputRef} :
    (graph.detach id name).Reads consumer source ↔
      graph.Reads consumer source ∧ consumer.node ≠ id := by
  by_cases gone : consumer.node = id <;> simp [Reads, node_detach, gone]

/-- No new edge appears by taking a node out, which is why acyclicity survives. -/
theorem feeds_of_detach {name : String} {producer reader : NodeId}
    (feeds : (graph.detach id name).Feeds producer reader) : graph.Feeds producer reader := by
  obtain ⟨input, slot, reads⟩ := feeds
  exact ⟨input, slot, (reads_detach_iff.mp reads).1⟩

/-- The outputs of the remaining nodes keep their type and lose the removed node as
a reader. -/
theorem outputSlot_detach {name : String} {source : OutputRef} (stays : source.node ≠ id) :
    (graph.detach id name).outputSlot source = (graph.outputSlot source).map fun slot =>
      { slot with consumers := slot.consumers.filter fun reader => reader.node ≠ id } := by
  simp only [outputSlot, node_detach, if_neg stays]
  cases graph.node source.node with
  | none => rfl
  | some found => exact found.relist_output _ source.node source.slot

/-- The removed node has no outputs left to read. -/
theorem outputSlot_detach_self (graph : Graph α) (id : NodeId) (name : String) (slot : Nat) :
    (graph.detach id name).outputSlot ⟨id, slot⟩ = none := by
  simp [outputSlot, node_detach]

/-- A value of another node keeps its type. The typing of what is left can be
checked against the old graph. -/
theorem outputType_detach {name : String} {source : OutputRef} (stays : source.node ≠ id) :
    (graph.detach id name).outputType source = graph.outputType source := by
  rw [outputType_eq_map, outputType_eq_map, outputSlot_detach stays, Option.map_map]
  rfl

/-- A node without consumers feeds no node. Consumers are counted over all outputs. -/
theorem Linked.unread (linked : graph.Linked) (found : graph.node id = some node)
    (idle : node.consumerCount = 0) (reader : NodeId) : ¬ graph.Feeds id reader := by
  rw [← linked.mem_readers_iff]
  have none : node.consumers = [] := List.eq_nil_of_length_eq_zero ((consumers_length node).trans idle)
  simp [readers, found, none]

/-- Inputs and reader lists keep agreeing when an unread node is taken out. With a
reader left, that reader would name a position that is now free. -/
theorem Linked.detach (linked : graph.Linked) (unread : ∀ reader, ¬ graph.Feeds id reader)
    (name : String) : (graph.detach id name).Linked where
  produced consumer source reads := by
    obtain ⟨readsOld, stays⟩ := reads_detach_iff.mp reads
    obtain ⟨slot, found⟩ := linked.produced consumer source readsOld
    have other : source.node ≠ id := by
      rintro rfl
      exact unread consumer.node ⟨consumer.input, source.slot, readsOld⟩
    exact ⟨_, by rw [outputSlot_detach other, found]; rfl⟩
  once source slot found := by
    by_cases gone : source.node = id
    · obtain ⟨place, index⟩ := source
      subst gone
      simp [outputSlot_detach_self] at found
    · rw [outputSlot_detach gone] at found
      obtain ⟨old, foundOld, rfl⟩ := Option.map_eq_some_iff.mp found
      exact (linked.once source old foundOld).filter _
  listed source slot found consumer := by
    by_cases gone : source.node = id
    · obtain ⟨place, index⟩ := source
      subst gone
      simp [outputSlot_detach_self] at found
    · rw [outputSlot_detach gone] at found
      obtain ⟨old, foundOld, rfl⟩ := Option.map_eq_some_iff.mp found
      rw [reads_detach_iff, ← linked.listed source old foundOld consumer]
      simp [List.mem_filter]

/-- Every remaining node still infers its types, since none of them read the removed
one. -/
theorem Fresh.detach [Arithmetic α] (fresh : graph.Fresh)
    (unread : ∀ reader, ¬ graph.Feeds id reader) (name : String) :
    (graph.detach id name).Fresh := by
  intro other found placed
  rw [node_detach] at placed
  by_cases gone : other = id
  · simp [gone] at placed
  · rw [if_neg gone] at placed
    obtain ⟨old, foundOld, rfl⟩ := Option.map_eq_some_iff.mp placed
    rw [Node.relist_outputTypes]
    apply (fresh other old foundOld).congr
    intro source listed
    apply outputType_detach
    rintro rfl
    obtain ⟨input, listed⟩ := List.getElem?_of_mem listed
    exact unread other ⟨input, source.slot, old, foundOld, listed⟩

/-- The live nodes left are the others. The property must not look at reader lists,
from which the node has gone. -/
theorem exists_node_detach {name : String} {other : NodeId} {property : Node α → Prop}
    (apart : ∀ change id found, property (Node.relist change id found) ↔ property found) :
    (∃ found, (graph.detach id name).node other = some found ∧ property found) ↔
      (∃ found, graph.node other = some found ∧ property found) ∧ other ≠ id := by
  rw [node_detach]
  by_cases gone : other = id
  · simp [gone]
  · rw [if_neg gone]
    cases graph.node other <;> simp [gone, apart]

/-- A name stands for one node. Dropping the entries of a name drops one entry. -/
theorem Indexed.name_unique (indexed : graph.Indexed) {name : String} {first second : NodeId}
    (listed : (name, first) ∈ graph.names) (again : (name, second) ∈ graph.names) :
    first = second :=
  congrArg Prod.snd (List.inj_on_of_nodup_map indexed.namesOnce listed again rfl)

/-- One less than before. The count of live nodes has to follow. -/
theorem nodes_length_detach (found : graph.node id = some node) (name : String) :
    (graph.detach id name).nodes.length = graph.nodes.length - 1 := by
  obtain ⟨kept, stays⟩ : ∃ kept, (graph.relist fun _ readers =>
      readers.filter fun reader => reader.node ≠ id).node id = some kept :=
    ⟨_, by rw [relist, node_mapNodes, found, Option.map_some]⟩
  have inside := lt_of_node stays
  have occupied : ((graph.relist fun _ readers =>
      readers.filter fun reader => reader.node ≠ id).arena[id]).isSome := by
    rw [Graph.node, List.getElem?_eq_getElem inside, Option.join_some] at stays
    rw [stays]
    rfl
  rw [detach, vacate, nodes_length, List.countP_set inside, if_pos occupied, ← nodes_length,
    nodes_length_relist]
  rfl

/-- Name index and interface lists agree with the live nodes again once the id and
its own name have been dropped. -/
theorem Indexed.detach (indexed : graph.Indexed) (found : graph.node id = some node) :
    (graph.detach id node.name).Indexed where
  namesOnce := indexed.namesOnce.sublist (List.filter_sublist.map Prod.fst)
  names name other := by
    rw [exists_node_detach (by simp), ← indexed.names]
    show (name, other) ∈ graph.names.filter (fun entry => entry.1 ≠ node.name) ↔ _
    rw [List.mem_filter]
    apply and_congr_right
    intro listed
    have entered : (node.name, id) ∈ graph.names := (indexed.names _ _).mpr ⟨node, found, rfl⟩
    have same : name = node.name ↔ other = id := by
      constructor
      · rintro rfl
        exact indexed.name_unique listed entered
      · rintro rfl
        obtain ⟨again, foundAgain, rfl⟩ := (indexed.names _ _).mp listed
        rw [Option.some.inj (foundAgain.symm.trans found)]
    simp [same]
  live := by
    rw [nodes_length_detach found, ← indexed.live]
    rfl
  parametersOrdered := indexed.parametersOrdered.filter _
  parameters other := by
    rw [exists_node_detach (by simp), ← indexed.parameters]
    simp [Graph.detach, vacate, and_comm]
  resultsOrdered := indexed.resultsOrdered.filter _
  results other := by
    rw [exists_node_detach (by simp), ← indexed.results]
    simp [Graph.detach, vacate, and_comm]

/-- A node nobody reads can be taken out of a sound graph. The count of consumers is
what the check looks at; the graph being linked turns it into the absence of
readers. -/
theorem Sound.detach [Arithmetic α] (sound : graph.Sound) (found : graph.node id = some node)
    (idle : node.consumerCount = 0) : (graph.detach id node.name).Sound :=
  have unread := sound.linked.unread found idle
  ⟨sound.linked.detach unread _, sound.indexed.detach found,
    sound.acyclic.of_feeds fun _ _ => feeds_of_detach, sound.fresh.detach unread _⟩

/-- The edges into a node are those of its inputs, so striking them strikes all entries
that name it. -/
theorem Linked.strike_eq (linked : graph.Linked) (found : graph.node id = some node) :
    Attempt.forEach (fun (source, consumer) => unlink source consumer)
      (inputEdges id node.inputs) graph =
        (.ok (), graph.relist fun _ readers => readers.filter fun reader => reader.node ≠ id) := by
  have reads (source : OutputRef) (consumer : Consumer) :
      (source, consumer) ∈ inputEdges id node.inputs ↔
        consumer.node = id ∧ graph.Reads consumer source := by
    rw [mem_inputEdges_iff]
    apply and_congr_right
    rintro rfl
    simp [Reads, found]
  rw [forEach_unlink_eq (inputEdges_nodup id node.inputs).of_map linked.once]
  · congr 1
    apply relist_congr
    intro source slot live
    apply List.filter_congr
    intro consumer member
    simp [reads, (linked.listed source slot live consumer).mp member]
  · intro source consumer member
    have reading := ((reads source consumer).mp member).2
    obtain ⟨slot, live⟩ := linked.produced consumer source reading
    exact ⟨slot, live, (linked.listed source slot live consumer).mpr reading⟩

/-- Removing a node that nothing reads takes it out, with its inputs. The loop over
its inputs and the emptying of its place come to one edit. -/
theorem Linked.removeNode_eq (linked : graph.Linked) (found : graph.node id = some node)
    (idle : node.consumerCount = 0) :
    removeNode id graph = (.ok node, graph.detach id node.name) := by
  have getting := getNode_of_node found
  have still : (graph.relist fun _ readers =>
      readers.filter fun reader => reader.node ≠ id).node id = some node := by
    rw [relist, node_mapNodes, found, Option.map_some, Node.relist_eq_self]
    intro slot output listed
    have silent : output.consumers = [] := by
      apply List.eq_nil_iff_forall_not_mem.mpr
      intro consumer member
      have live : graph.outputSlot ⟨id, slot⟩ = some output :=
        outputSlot_eq_some_iff.mpr ⟨node, found, listed⟩
      exact linked.unread found idle consumer.node
        ⟨consumer.input, slot, (linked.listed ⟨id, slot⟩ output live consumer).mp member⟩
    rw [silent]
    rfl
  have gettingAgain : getNode id (graph.relist fun _ readers =>
      readers.filter fun reader => reader.node ≠ id) = (.ok node, graph.relist fun _ readers =>
      readers.filter fun reader => reader.node ≠ id) := by
    rw [getNode, nodeAt_of_node still]
  rw [removeNode, Attempt.bind_of_ok getting, if_neg (by omega),
    Attempt.bind_of_ok (linked.strike_eq found), Attempt.bind_of_ok gettingAgain]
  rfl

/-- A node is removed, or nothing is changed. No later proof opens the definition. -/
theorem Linked.removeNode_cases (linked : graph.Linked) (id : NodeId) :
    (∃ failure, removeNode id graph = (.error failure, graph)) ∨
      ∃ node, graph.node id = some node ∧ node.consumerCount = 0 ∧
        removeNode id graph = (.ok node, graph.detach id node.name) := by
  cases found : graph.node id with
  | none =>
    refine Or.inl ⟨.deadNode id, ?_⟩
    have missing := getNode_of_none found
    rw [removeNode, Attempt.bind_of_error missing]
  | some node =>
    by_cases read : 0 < node.consumerCount
    · refine Or.inl ⟨.stillConsumed node.name node.consumerCount, ?_⟩
      have getting := getNode_of_node found
      rw [removeNode, Attempt.bind_of_ok getting, if_pos read]
      rfl
    · have idle : node.consumerCount = 0 := Nat.eq_zero_of_not_pos read
      exact Or.inr ⟨node, rfl, idle, linked.removeNode_eq found idle⟩

/-- Removal keeps the graph sound, whether it is carried out or refused for a reader
that is left. -/
theorem keeps_removeNode [Arithmetic α] (id : NodeId) :
    Attempt.Keeps Sound (removeNode id : Attempt (Graph α) (Node α)) := by
  intro graph sound
  rcases sound.linked.removeNode_cases id with ⟨failure, failed⟩ | ⟨node, found, idle, removed⟩
  · rw [failed]
    exact sound
  · rw [removed]
    exact sound.detach found idle

end Detach

/-- Give a node another name, in the index as well. -/
def relabel (graph : Graph α) (id : NodeId) (old new : String) : Graph α :=
  { graph.modifyNode id fun node => { node with name := new } with
    names := (graph.names.filter fun (key, _) => key ≠ old) ++ [(new, id)] }

section Relabel

variable {graph : Graph α} {id : NodeId} {old new : String}

/-- A new label reaches one node and there only the name. -/
theorem node_relabel (other : NodeId) : (graph.relabel id old new).node other =
    (graph.node other).map fun node => if other = id then { node with name := new } else node := by
  have renamed := node_mapNodes graph
    (fun place node => if place = id then { node with name := new } else node) other
  rw [← modifyNode_eq_mapNodes] at renamed
  exact renamed

/-- A new label leaves the list of parameters, which holds ids. -/
theorem parameters_relabel : (graph.relabel id old new).parameters = graph.parameters := rfl

/-- A new label leaves the list of results, which holds ids. -/
theorem results_relabel : (graph.relabel id old new).results = graph.results := rfl

/-- A property of some node after a relabelling, expressed through the nodes before
it. -/
theorem exists_node_relabel {other : NodeId} {property : Node α → Prop} :
    (∃ node, (graph.relabel id old new).node other = some node ∧ property node) ↔
      ∃ node, graph.node other = some node ∧
        property (if other = id then { node with name := new } else node) := by
  rw [node_relabel]
  cases graph.node other <;> simp

/-- A new label leaves every output, its type and its readers. -/
theorem outputSlot_relabel (source : OutputRef) :
    (graph.relabel id old new).outputSlot source = graph.outputSlot source := by
  simp only [outputSlot, node_relabel]
  cases graph.node source.node with
  | none => rfl
  | some node => by_cases named : source.node = id <;> simp [named]

/-- A new label leaves the type of every source. -/
theorem outputType_relabel : (graph.relabel id old new).outputType = graph.outputType := by
  funext source
  rw [outputType_eq_map, outputType_eq_map, outputSlot_relabel]

/-- A new label leaves the reading relation. -/
theorem reads_relabel {consumer : Consumer} {source : OutputRef} :
    (graph.relabel id old new).Reads consumer source ↔ graph.Reads consumer source := by
  rw [Reads, exists_node_relabel]
  by_cases named : consumer.node = id <;> simp [named, Reads]

/-- A new label leaves the number of live nodes. -/
theorem nodes_length_relabel : (graph.relabel id old new).nodes.length = graph.nodes.length := by
  have same := nodes_length_mapNodes graph
    fun place node => if place = id then { node with name := new } else node
  rw [← modifyNode_eq_mapNodes] at same
  exact same

/-- Inputs and reader lists do not mention names, so a relabelled graph is linked as
before. -/
theorem Linked.relabel (linked : graph.Linked) : (graph.relabel id old new).Linked where
  produced consumer source reads := by
    rw [outputSlot_relabel]
    exact linked.produced consumer source (reads_relabel.mp reads)
  once source slot found := linked.once source slot (outputSlot_relabel source ▸ found)
  listed source slot found consumer := by
    rw [reads_relabel]
    exact linked.listed source slot (outputSlot_relabel source ▸ found) consumer

/-- The name index agrees with the live nodes after the entry of the old name has
been exchanged for the new one, provided the new name was free. -/
theorem Indexed.relabel (indexed : graph.Indexed) {node : Node α}
    (found : graph.node id = some node) (free : graph.findName new = none) :
    (graph.relabel id node.name new).Indexed where
  namesOnce := by
    have unused : new ∉ (graph.names.filter fun (key, _) => key ≠ node.name).map Prod.fst := by
      intro member
      obtain ⟨⟨_, other⟩, listed, rfl⟩ := List.mem_map.mp member
      exact findName_eq_none_iff.mp free other (List.mem_of_mem_filter listed)
    show (((graph.names.filter fun (key, _) => key ≠ node.name) ++ [(new, id)]).map
      Prod.fst).Nodup
    rw [List.map_append]
    exact List.Nodup.append (indexed.namesOnce.sublist (List.filter_sublist.map Prod.fst))
      (by simp) (by simpa using unused)
  names name other := by
    rw [exists_node_relabel]
    show (name, other) ∈ (graph.names.filter fun (key, _) => key ≠ node.name) ++ [(new, id)] ↔ _
    rw [List.mem_append, List.mem_filter, List.mem_singleton, Prod.mk.injEq, indexed.names]
    -- The node itself has the new entry; any other has kept its own, as names differ.
    by_cases named : other = id
    · subst named
      simp only [found, Option.some.injEq, exists_eq_left', if_true, and_true,
        decide_eq_true_eq]
      constructor
      · rintro (⟨rfl, differs⟩ | rfl)
        · exact absurd rfl differs
        · rfl
      · rintro rfl
        exact Or.inr rfl
    · have apart (listed : ∃ found, graph.node other = some found ∧ found.name = name) :
          name ≠ node.name := by
        rintro rfl
        have first := (indexed.names _ _).mpr listed
        exact named (indexed.name_unique first ((indexed.names _ _).mpr ⟨node, found, rfl⟩))
      simpa [named] using fun other live same => apart ⟨other, live, same⟩
  live := by
    rw [nodes_length_relabel, ← indexed.live]
    rfl
  parametersOrdered := indexed.parametersOrdered
  parameters other := by
    rw [exists_node_relabel, parameters_relabel, indexed.parameters]
    by_cases named : other = id <;> simp [named]
  resultsOrdered := indexed.resultsOrdered
  results other := by
    rw [exists_node_relabel, results_relabel, indexed.results]
    by_cases named : other = id <;> simp [named]

/-- A node of a sound graph can be given any free name. No type inference reads a
name, so every other invariant carries over. -/
theorem Sound.relabel [Arithmetic α] (sound : graph.Sound) {node : Node α}
    (found : graph.node id = some node) (free : graph.findName new = none) :
    (graph.relabel id node.name new).Sound where
  linked := sound.linked.relabel
  indexed := sound.indexed.relabel found free
  acyclic := sound.acyclic.of_feeds fun producer reader feeds => by
    obtain ⟨input, slot, reads⟩ := feeds
    exact ⟨input, slot, reads_relabel.mp reads⟩
  fresh other placed live := by
    rw [node_relabel] at live
    obtain ⟨before, foundBefore, rfl⟩ := Option.map_eq_some_iff.mp live
    rw [outputType_relabel]
    have infers := sound.fresh other before foundBefore
    split
    · exact infers.rename new
    · exact infers

/-- A node gets the name, or has it already, or nothing is changed. No later proof
opens the definition. -/
theorem renameNode_cases (graph : Graph α) (id : NodeId) (name : String) :
    (∃ failure, renameNode id name graph = (.error failure, graph)) ∨
      renameNode id name graph = (.ok (), graph) ∨
      ∃ node, graph.node id = some node ∧ graph.findName name = none ∧
        renameNode id name graph = (.ok (), graph.relabel id node.name name) := by
  cases found : graph.node id with
  | none =>
    refine Or.inl ⟨.deadNode id, ?_⟩
    have missing := getNode_of_none found
    rw [renameNode, Attempt.read_bind, Attempt.bind_of_error missing]
  | some node =>
    have getting := getNode_of_node found
    by_cases own : node.name = name
    · refine Or.inr (Or.inl ?_)
      rw [renameNode, Attempt.read_bind, Attempt.bind_of_ok getting, if_pos own]
      rfl
    · by_cases taken : (graph.findName name).isSome
      · refine Or.inl ⟨.nameTaken name, ?_⟩
        rw [renameNode, Attempt.read_bind, Attempt.bind_of_ok getting, if_neg own, if_pos taken]
        rfl
      · refine Or.inr (Or.inr ⟨node, rfl, by simpa using taken, ?_⟩)
        rw [renameNode, Attempt.read_bind, Attempt.bind_of_ok getting, if_neg own, if_neg taken]
        rfl

/-- Renaming keeps the graph sound. The name a node already has is accepted as a
change that changes nothing. -/
theorem keeps_renameNode [Arithmetic α] (id : NodeId) (name : String) :
    Attempt.Keeps Sound (renameNode id name : Attempt (Graph α) Unit) := by
  intro graph sound
  rcases renameNode_cases graph id name with
    ⟨failure, failed⟩ | same | ⟨node, found, free, renamed⟩
  · rw [failed]
    exact sound
  · rw [same]
    exact sound
  · rw [renamed]
    exact sound.relabel found free

end Relabel

end Graph

end RangeFold
