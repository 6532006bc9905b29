import RangeFold.Proofs.Graph.OrderMemory

/-!
# Topological order

Whatever has been done to a graph and asked of it, it answers with one order, which is said
here without counters and without a memory: every live node is listed once, and at each
position stands the least of the nodes that are open then, those not listed yet all of whose
producers are. So producers come before their readers.

On the way to it every node starts with as many missing supplies as it has inputs and is
supplied from the lists of readers. The two agree, also where a node reads one value several
times and where places are empty, so no counter is ever below zero.
-/

namespace RangeFold

open Readiness

variable {α : Type}

namespace Graph

/-- A live node that is not listed yet, all of whose producers are. -/
structure Open (graph : Graph α) (listed : List NodeId) (id : NodeId) : Prop where
  live : ∃ node, graph.node id = some node
  unlisted : id ∉ listed
  supplied : ∀ producer, graph.Feeds producer id → producer ∈ listed

/-- The live nodes, each once, producers before their readers and otherwise smaller places
first. -/
structure Topological (graph : Graph α) (listing : List NodeId) : Prop where
  once : listing.Nodup
  live : ∀ id, id ∈ listing ↔ ∃ node, graph.node id = some node
  producersFirst : ∀ producer reader, graph.Feeds producer reader →
    listing.idxOf producer < listing.idxOf reader
  least : ∀ before id after, listing = before ++ id :: after →
    graph.Open before id ∧ ∀ other, graph.Open before other → id ≤ other

/-- The states that the order of a graph is computed through. -/
def orderMoments (graph : Graph α) : List Readiness :=
  moments (fun left right => decide (left ≤ right)) graph.readers graph.arena.length
    graph.initialReadiness

section Order

variable {graph : Graph α}

/-- A node is open when no unlisted node feeds it. The scheduler speaks of supplies
and the graph of edges. -/
theorem Linked.ready_iff_open (linked : graph.Linked) {listed : List NodeId} {id : NodeId} :
    Ready graph.readers graph.nodeIds listed id ↔ graph.Open listed id := by
  constructor
  · rintro ⟨member, unlisted, supplied⟩
    refine ⟨mem_nodeIds_iff.mp member, unlisted, fun producer feeds => ?_⟩
    by_contra waits
    obtain ⟨input, slot, reads⟩ := feeds
    obtain ⟨output, live⟩ := linked.produced _ _ reads
    obtain ⟨node, found, -⟩ := outputSlot_eq_some_iff.mp live
    exact supplied (mem_outstanding_iff.mpr ⟨producer, mem_nodeIds_iff.mpr ⟨node, found⟩, waits,
      linked.mem_readers_iff.mpr ⟨input, slot, reads⟩⟩)
  · rintro ⟨live, unlisted, supplied⟩
    refine ⟨mem_nodeIds_iff.mpr live, unlisted, fun due => ?_⟩
    obtain ⟨producer, -, waits, feeds⟩ := mem_outstanding_iff.mp due
    exact waits (supplied producer (linked.mem_readers_iff.mp feeds))

/-- Being open is a matter of which nodes are listed, not of their order. The list
may be turned round. -/
theorem Open.congr {listed other : List NodeId} {id : NodeId} (isOpen : graph.Open listed id)
    (same : ∀ id, id ∈ other ↔ id ∈ listed) : graph.Open other id where
  live := isOpen.live
  unlisted member := isOpen.unlisted ((same id).mp member)
  supplied producer feeds := (same producer).mpr (isOpen.supplied producer feeds)

/-- Where each node is the least of the open ones, producers come before their
readers. A reader cannot be open before its producer is listed. -/
theorem idxOf_lt_of_least {listing : List NodeId} {producer reader : NodeId}
    (member : reader ∈ listing) (feeds : graph.Feeds producer reader)
    (least : ∀ before id after, listing = before ++ id :: after → graph.Open before id) :
    listing.idxOf producer < listing.idxOf reader := by
  obtain ⟨before, after, rfl⟩ := List.append_of_mem member
  have isOpen := least before reader after rfl
  have earlier : producer ∈ before := isOpen.supplied producer feeds
  rw [List.idxOf_append_of_mem earlier, List.idxOf_append_of_notMem isOpen.unlisted,
    List.idxOf_cons_self, Nat.add_zero]
  exact List.idxOf_lt_length_of_mem earlier

/-- The order of a graph without cycles is topological. Of the nodes that are open
the least one always comes next. -/
theorem Linked.order_topological (linked : graph.Linked) (single : graph.Single)
    (acyclic : graph.Acyclic) : graph.Topological graph.order := by
  have listing := linked.order_listing single
  have live (id : NodeId) : id ∈ graph.order ↔ ∃ node, graph.node id = some node :=
    linked.mem_order_iff single acyclic
  have least (before : List NodeId) (id : NodeId) (after : List NodeId)
      (split : graph.order = before ++ id :: after) :
      graph.Open before id ∧ ∀ other, graph.Open before other → id ≤ other := by
    rw [split] at listing
    obtain ⟨ready, first⟩ := listing.earliest
    refine ⟨(linked.ready_iff_open.mp ready).congr fun id => by simp, fun other isOpen => ?_⟩
    have readyToo := linked.ready_iff_open.mpr
      (isOpen.congr fun id => (by simp : id ∈ before.reverse ++ [] ↔ id ∈ before))
    exact of_decide_eq_true (first other readyToo)
  refine ⟨listing.nodup, live, ?_, least⟩
  intro producer reader feeds
  obtain ⟨_, _, node, found, _⟩ := feeds
  exact idxOf_lt_of_least ((live reader).mpr ⟨node, found⟩) ⟨_, _, node, found, ‹_›⟩
    fun before id after split => (least before id after split).1

/-- A counter starts with the number of inputs and loses one for each entry of a reader; there
are no more entries than inputs. -/
theorem Linked.orderMoments_counted (linked : graph.Linked) (single : graph.Single) :
    ∀ moment ∈ graph.orderMoments, ∀ count ∈ moment.missing, 0 ≤ count := by
  refine moments_counted ranks_le graph.nodeIds_nodup linked.readers_live
    (linked.initial_tracks single) (fun _ listed => absurd listed List.not_mem_nil) ?_
  intro count listed
  obtain ⟨entry, -, rfl⟩ := List.mem_map.mp listed
  cases entry with
  | none => exact Int.le_refl 0
  | some node => exact Int.natCast_nonneg _

end Order

section Memory

variable [Arithmetic α] {graph : Graph α}

/-- A graph is carried along with some memory, and with every memory that it can be carried
along with it answers with its order, which is topological, and backwards with the reverse.
In no state of the computation, up to the one in which it ends, is a counter below zero. -/
theorem order_exact (reachable : graph.Reachable) :
    (∃ memory, OrderedGraph.Carried ⟨graph, memory⟩) ∧
    ∀ memory, OrderedGraph.Carried ⟨graph, memory⟩ →
      ∃ listing, OrderedGraph.order ⟨graph, memory⟩ = (.ok listing, ⟨graph, some listing⟩) ∧
        OrderedGraph.reverseOrder ⟨graph, memory⟩ =
          (.ok listing.reverse, ⟨graph, some listing⟩) ∧
        graph.Topological listing ∧
        graph.orderMoments.getLast? = some (Readiness.list (fun left right => decide (left ≤ right))
          graph.readers graph.arena.length graph.initialReadiness).2 ∧
        ∀ moment ∈ graph.orderMoments, ∀ count ∈ moment.missing, 0 ≤ count := by
  have sound := reachable.sound
  have single := sound.fresh.single
  refine ⟨reachable.of_edits OrderedGraph.survives_carried ⟨none, [], rfl⟩, ?_⟩
  intro memory carried
  have faithful := carried.trusted.faithful
  exact ⟨graph.order, faithful.order_eq, faithful.reverseOrder_eq,
    sound.linked.order_topological single sound.acyclic, Readiness.getLast?_moments _ _,
    sound.linked.orderMoments_counted single⟩

/-- The first node comes to read the last one, past a place that has been emptied; the order is
asked for before and after, and a refused edit and a new name leave it remembered. -/
def reorderedRequests : List (OrderedGraph.Request Rat) :=
  [.add .parameter "x" [] (vectorEntry 2),
    .add .relu "first" [⟨0, 0⟩] Attributes.empty,
    .add .relu "second" [⟨0, 0⟩] Attributes.empty,
    .add .identity "third" [⟨0, 0⟩] Attributes.empty,
    .add .add "sum" [⟨2, 0⟩, ⟨2, 0⟩] Attributes.empty,
    .order,
    .setInput 1 0 ⟨4, 0⟩,
    .remove 3,
    .order,
    .setInput 2 0 ⟨1, 0⟩,
    .rename 1 "last"]

/-- The graph that the requests lead to, with the order it remembers. -/
def reordered : OrderedGraph Rat :=
  OrderedGraph.Request.performAll reorderedRequests OrderedGraph.empty

/-- The order that is remembered is still that of the graph, and is answered
backwards when asked for in reverse. -/
theorem reordered_order :
    reordered.graph.Reachable ∧ OrderedGraph.Carried reordered ∧
      reordered.remembered = some [0, 2, 4, 1] ∧ reordered.graph.Topological [0, 2, 4, 1] ∧
      (OrderedGraph.reverseOrder reordered).1 = .ok [1, 4, 2, 0] := by
  have carried : OrderedGraph.Carried reordered := ⟨reorderedRequests, rfl⟩
  have reachable := carried.trusted.reachable
  have remembered : reordered.remembered = some [0, 2, 4, 1] := by decide +kernel
  obtain ⟨listing, answers, backwards, topological, -⟩ :=
    (order_exact reachable).2 reordered.remembered carried
  have same : OrderedGraph.order ⟨reordered.graph, reordered.remembered⟩ =
      (.ok [0, 2, 4, 1], ⟨reordered.graph, reordered.remembered⟩) := by rw [remembered]; rfl
  obtain rfl := Except.ok.inj (congrArg Prod.fst (same.symm.trans answers))
  exact ⟨reachable, carried, remembered, topological, congrArg Prod.fst backwards⟩

end Memory

end Graph

end RangeFold
