import RangeFold.Graph.Order
import RangeFold.Proofs.Graph.Acyclic
import RangeFold.Proofs.Readiness

/-!
# The order of a graph

The order of a graph is the listing of its live nodes by readiness, where a node owes one
supply to each input that reads it. At the start a node therefore misses as many supplies
as it has inputs, as the counters say. Without cycles no live node is left out.
-/

namespace RangeFold

open Relation

variable {α : Type}

namespace Graph

/-- Live nodes are listed by increasing place. They are picked from the arena in
passing. -/
theorem nodeIds_increasing (graph : Graph α) : graph.nodeIds.Pairwise (· < ·) := by
  have places : graph.arena.zipIdx.Pairwise fun first second => first.2 < second.2 := by
    have increasing : (graph.arena.zipIdx.map Prod.snd).Pairwise (· < ·) := by
      rw [List.zipIdx_map_snd]
      exact List.pairwise_lt_range'
    exact List.pairwise_map.mp increasing
  rw [nodeIds, List.pairwise_map, nodes, List.pairwise_filterMap]
  apply places.imp
  rintro ⟨first, firstId⟩ ⟨second, secondId⟩ smaller one listed other listedOther
  obtain ⟨_, _, rfl⟩ := Option.map_eq_some_iff.mp listed
  obtain ⟨_, _, rfl⟩ := Option.map_eq_some_iff.mp listedOther
  exact smaller

/-- No id is listed twice, because ids are positions. -/
theorem nodeIds_nodup (graph : Graph α) : graph.nodeIds.Nodup :=
  graph.nodeIds_increasing.imp Nat.ne_of_lt

/-- The inputs that read a node. -/
def inputsOn (graph : Graph α) (id : NodeId) : List Consumer :=
  match graph.node id with
  | some node => node.consumers
  | none => []

/-- The readers of a node are the nodes of its consumers, one for every input and so
possibly repeated. -/
theorem readers_eq_map (graph : Graph α) (id : NodeId) :
    graph.readers id = (graph.inputsOn id).map Consumer.node := by
  unfold readers inputsOn
  cases graph.node id <;> rfl

section Linked

variable {graph : Graph α}

/-- In a linked graph of nodes with one output, the consumers recorded at a node are
exactly those that read it. -/
theorem Linked.mem_inputsOn_iff (linked : graph.Linked) (single : graph.Single)
    {consumer : Consumer} {id : NodeId} :
    consumer ∈ graph.inputsOn id ↔ graph.Reads consumer ⟨id, 0⟩ := by
  cases found : graph.node id with
  | none =>
    have unread : ¬ graph.Reads consumer ⟨id, 0⟩ := by
      intro reads
      obtain ⟨slot, live⟩ := linked.produced consumer _ reads
      simp [outputSlot, found] at live
    simp [inputsOn, found, unread]
  | some node =>
    obtain ⟨slot, _, readers, live⟩ := single.consumers found
    rw [← linked.listed _ slot live consumer, ← readers]
    simp [inputsOn, found]

/-- Every input reads one value, so no input is met twice. Supplies can therefore be
counted by inputs. -/
theorem Linked.inputs_nodup (linked : graph.Linked) (single : graph.Single) :
    (graph.nodeIds.flatMap graph.inputsOn).Nodup := by
  rw [List.nodup_flatMap]
  constructor
  · intro id live
    obtain ⟨node, found⟩ := mem_nodeIds_iff.mp live
    obtain ⟨slot, _, readers, output⟩ := single.consumers found
    have once := linked.once _ slot output
    simpa [inputsOn, found, readers] using once
  · apply graph.nodeIds_nodup.imp
    intro first second apart consumer onFirst onSecond
    have reads := (linked.mem_inputsOn_iff single).mp onFirst
    have readsAgain := (linked.mem_inputsOn_iff single).mp onSecond
    exact apart (congrArg OutputRef.node (reads.unique readsAgain))

/-- At the start every node misses one supply for each of its inputs. That is the
number which the counters are set up with. -/
theorem Linked.owed_start (linked : graph.Linked) (single : graph.Single) {id : NodeId}
    {node : Node α} (found : graph.node id = some node) :
    Readiness.owed graph.readers graph.nodeIds [] id = node.inputs.length := by
  -- The supplies owed to a node are its inputs, gathered from the lists of all producers.
  have inputs : ((graph.nodeIds.flatMap graph.inputsOn).filter (·.node = id)).Perm
      ((List.range node.inputs.length).map fun input => ⟨id, input⟩) := by
    rw [List.perm_ext_iff_of_nodup ((linked.inputs_nodup single).filter _)
      (List.nodup_range.map fun _ _ same => (Consumer.mk.inj same).2)]
    rintro ⟨reader, input⟩
    simp only [List.mem_filter, List.mem_flatMap, linked.mem_inputsOn_iff single,
      decide_eq_true_eq, List.mem_map, List.mem_range, Consumer.mk.injEq]
    constructor
    · rintro ⟨⟨producer, -, reads⟩, rfl⟩
      obtain ⟨again, foundAgain, placed⟩ := reads
      obtain rfl : node = again := Option.some.inj (found.symm.trans foundAgain)
      exact ⟨input, (List.getElem?_eq_some_iff.mp placed).1, rfl, rfl⟩
    · rintro ⟨place, inside, rfl, rfl⟩
      have reads : graph.Reads ⟨id, place⟩ node.inputs[place] :=
        ⟨node, found, List.getElem?_eq_getElem inside⟩
      obtain ⟨slot, live⟩ := linked.produced _ _ reads
      obtain ⟨producer, foundProducer, output⟩ := outputSlot_eq_some_iff.mp live
      -- With one output to each producer, the first is the one that is read.
      have only : node.inputs[place].slot = 0 := by
        have counted := single _ producer foundProducer
        have below := (List.getElem?_eq_some_iff.mp output).1
        omega
      refine ⟨⟨node.inputs[place].node, mem_nodeIds_iff.mpr ⟨producer, foundProducer⟩, ?_⟩, rfl⟩
      rwa [← only]
  have supplies : graph.nodeIds.flatMap graph.readers =
      (graph.nodeIds.flatMap graph.inputsOn).map Consumer.node := by
    rw [List.map_flatMap]
    congr 1
    funext id
    exact graph.readers_eq_map id
  have counted : Readiness.owed graph.readers graph.nodeIds [] id =
      ((graph.nodeIds.flatMap graph.inputsOn).filter (·.node = id)).length := by
    simp only [Readiness.owed, Readiness.outstanding, List.not_mem_nil, not_false_eq_true,
      decide_true, List.filter_true, supplies]
    rw [List.count, List.countP_map, List.countP_eq_length_filter]
    congr 2
  rw [counted, inputs.length_eq, List.length_map, List.length_range]

/-- The counters start with what every node misses, and the queue with the nodes that miss
nothing. -/
theorem Linked.initial_tracks (linked : graph.Linked) (single : graph.Single) :
    Readiness.Tracks (fun left right => decide (left ≤ right)) graph.nodeIds []
      (Readiness.owed graph.readers graph.nodeIds []) graph.initialReadiness where
  counted place member := by
    obtain ⟨node, found⟩ := mem_nodeIds_iff.mp member
    obtain ⟨entry, stored, rfl⟩ : ∃ entry, graph.arena[place]? = some entry ∧ entry = some node := by
      simpa [Graph.node, Option.join_eq_some_iff] using found
    simp [initialReadiness, stored, linked.owed_start single found]
  waiting place := by
    simp only [initialReadiness, List.mem_map, List.mem_filter, Prod.exists, exists_and_right,
      exists_eq_right, mem_nodes_iff, mem_nodeIds_iff, List.not_mem_nil, not_false_eq_true,
      true_and]
    constructor
    · rintro ⟨node, found, sourceless⟩
      refine ⟨⟨node, found⟩, ?_⟩
      rw [linked.owed_start single found, List.isEmpty_iff.mp sourceless]
      rfl
    · rintro ⟨⟨node, found⟩, free⟩
      rw [linked.owed_start single found] at free
      exact ⟨node, found, List.isEmpty_iff.mpr (List.length_eq_zero_iff.mp free)⟩
  once := graph.nodeIds_nodup.sublist (List.filter_sublist.map Prod.fst)
  sorted := by
    have increasing := graph.nodeIds_increasing.sublist
      (List.filter_sublist (p := fun entry : NodeId × Node α => entry.2.inputs.isEmpty)
        |>.map Prod.fst)
    exact increasing.imp fun smaller => decide_eq_true (Nat.le_of_lt smaller)

/-- Smaller places come first. Any two can be compared, which the queue relies on. -/
theorem ranks_le : Readiness.Ranks fun left right : Nat => decide (left ≤ right) where
  total left right := by simpa using Nat.le_total left right
  trans left middle right first second := by
    simp only [decide_eq_true_eq] at first second ⊢
    omega

/-- Readers are live. A supply never goes to a place that is not in the listing. -/
theorem Linked.readers_live (linked : graph.Linked) :
    ∀ producer ∈ graph.nodeIds, ∀ reader ∈ graph.readers producer, reader ∈ graph.nodeIds := by
  intro producer _ reader reads
  obtain ⟨_, _, node, found, _⟩ := linked.mem_readers_iff.mp reads
  exact mem_nodeIds_iff.mpr ⟨node, found⟩

/-- The order of a graph is the listing of its live nodes, smaller places first. All
further facts about the order come from this one. -/
theorem Linked.order_listing (linked : graph.Linked) (single : graph.Single) :
    Readiness.Listing (fun left right => decide (left ≤ right)) graph.readers graph.nodeIds []
      graph.order := by
  refine (Readiness.list_listing ranks_le graph.nodeIds_nodup linked.readers_live
    (linked.initial_tracks single) (fun _ listed => absurd listed List.not_mem_nil) ?_).1
  rw [List.filter_eq_self.mpr (by simp), nodeIds, List.length_map, nodes_length]
  exact List.countP_le_length

/-- Without cycles the order lists the live nodes and nothing else. With a cycle its
nodes and those behind it would be missing. -/
theorem Linked.mem_order_iff (linked : graph.Linked) (single : graph.Single)
    (acyclic : graph.Acyclic) {id : NodeId} :
    id ∈ graph.order ↔ ∃ node, graph.node id = some node := by
  have listing := linked.order_listing single
  rw [← mem_nodeIds_iff]
  constructor
  · exact listing.subset
  · intro live
    have grounded : WellFounded (Readiness.Fed graph.readers graph.nodeIds) :=
      Subrelation.wf (fun edge => linked.mem_readers_iff.mp edge.2)
        (acyclic.wellFounded linked)
    exact listing.mem_of_acc (grounded.apply id) live

/-- Without cycles the order is a rearrangement of the live nodes. It lists no node
twice. -/
theorem Linked.order_perm (linked : graph.Linked) (single : graph.Single)
    (acyclic : graph.Acyclic) : graph.order.Perm graph.nodeIds := by
  rw [List.perm_ext_iff_of_nodup (linked.order_listing single).nodup graph.nodeIds_nodup]
  intro id
  rw [linked.mem_order_iff single acyclic, mem_nodeIds_iff]

/-- No node reads one that comes after it. This holds with cycles too, for the nodes
that are listed. -/
theorem Linked.order_unfed (linked : graph.Linked) (single : graph.Single) :
    graph.order.Pairwise fun first second => ¬ graph.Feeds second first :=
  (linked.order_listing single).unfed.imp fun unread feeds =>
    unread (linked.mem_readers_iff.mpr feeds)

end Linked

end Graph

end RangeFold
