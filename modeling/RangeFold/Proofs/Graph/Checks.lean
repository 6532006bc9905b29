import RangeFold.Graph.Soundness
import RangeFold.Proofs.Graph.Order
import RangeFold.Proofs.Graph.Removal

/-!
# Sound graphs pass their checks

The check of a graph recomputes everything it stores. On a sound graph each part of it
finds what is stored, so a run that checks its graph after each change is never ended by
a check.

Readers are compared as sets written in one order: the expected ones are met in that order,
because the edges of a graph are told node by node and input by input, and the listed ones
are sorted.
-/

namespace RangeFold

variable {α : Type}

/-- A check of every item passes if each item passes. The checks of a graph are all
of this form. -/
theorem forM_eq_ok {β : Type} {check : β → Except Failure Unit} {items : List β}
    (passes : ∀ item ∈ items, check item = .ok ()) : items.forM check = .ok () := by
  induction items with
  | nil => rfl
  | cons item rest inductionHypothesis =>
    have first : check item = .ok () := passes item List.mem_cons_self
    have others : rest.forM check = .ok () :=
      inductionHypothesis fun other member => passes other (List.mem_cons_of_mem _ member)
    show (check item >>= fun _ => rest.forM check) = .ok ()
    rw [first, Attempt.ok_bind, others]

namespace Consumer

/-- Consumers are compared by their node first and by the input number only between
inputs of one node. -/
theorem before_iff {left right : Consumer} : left.before right = true ↔
    left.node < right.node ∨ (left.node = right.node ∧ left.input ≤ right.input) := by
  simp [before]

/-- Any two consumers can be compared. -/
theorem before_total (left right : Consumer) :
    left.before right = true ∨ right.before left = true := by
  rw [before_iff, before_iff]
  grind

/-- Comparing consumers is transitive, the lexicographic case analysis being left to
arithmetic. -/
theorem before_trans {left middle right : Consumer} (first : left.before middle = true)
    (second : middle.before right = true) : left.before right = true := by
  rw [before_iff] at first second ⊢
  grind

/-- Consumers that come before each other are the same, so a sorted list of
consumers is determined by its members. -/
theorem before_antisymm {left right : Consumer} (first : left.before right = true)
    (second : right.before left = true) : left = right := by
  rw [before_iff] at first second
  obtain ⟨leftNode, leftInput⟩ := left
  obtain ⟨rightNode, rightInput⟩ := right
  simp only [Consumer.mk.injEq] at first second ⊢
  grind

end Consumer

namespace Graph

section Sorting

/-- Insertion adds the consumer and rearranges nothing else, as far as members and
repetitions go. -/
theorem insertConsumer_perm (consumer : Consumer) (sorted : List Consumer) :
    (insertConsumer consumer sorted).Perm (consumer :: sorted) := by
  induction sorted with
  | nil => exact .refl _
  | cons head rest inductionHypothesis =>
    unfold insertConsumer
    split
    · exact .refl _
    · exact (inductionHypothesis.cons head).trans (.swap consumer head rest)

/-- Insertion into a sorted list keeps it sorted. Where the new consumer stops,
everything behind it is already larger. -/
theorem insertConsumer_sorted (consumer : Consumer) {sorted : List Consumer}
    (ordered : sorted.Pairwise fun left right => left.before right = true) :
    (insertConsumer consumer sorted).Pairwise fun left right => left.before right = true := by
  induction sorted with
  | nil => exact List.pairwise_singleton _ _
  | cons head rest inductionHypothesis =>
    obtain ⟨smallest, others⟩ := List.pairwise_cons.mp ordered
    unfold insertConsumer
    split
    · rename_i before
      refine List.pairwise_cons.mpr ⟨?_, ordered⟩
      rintro other (_ | ⟨_, member⟩)
      · exact before
      · exact Consumer.before_trans before (smallest other member)
    · rename_i after
      have headFirst : head.before consumer = true :=
        (Consumer.before_total consumer head).resolve_left after
      refine List.pairwise_cons.mpr ⟨?_, inductionHypothesis others⟩
      intro other member
      rcases List.mem_cons.mp ((insertConsumer_perm consumer rest).mem_iff.mp member) with rfl | old
      · exact headFirst
      · exact smallest other old

/-- Sorting keeps the readers. It only changes their order, so comparing sorted
lists compares members. -/
theorem sortConsumers_perm (consumers : List Consumer) :
    (consumers.foldr insertConsumer []).Perm consumers := by
  induction consumers with
  | nil => exact .refl _
  | cons consumer rest inductionHypothesis =>
    exact (insertConsumer_perm consumer _).trans (inductionHypothesis.cons consumer)

/-- Inserting one by one gives a sorted list, by induction on the consumers still to
be inserted. -/
theorem sortConsumers_sorted (consumers : List Consumer) :
    (consumers.foldr insertConsumer []).Pairwise fun left right => left.before right = true := by
  induction consumers with
  | nil => exact .nil
  | cons consumer rest inductionHypothesis =>
    exact insertConsumer_sorted consumer inductionHypothesis

end Sorting

section Edges

/-- The set of sources, kept as a list, gains exactly the inserted source. -/
theorem mem_insertSource_iff {source other : OutputRef} {sources : List OutputRef} :
    other ∈ insertSource source sources ↔ other = source ∨ other ∈ sources := by
  induction sources with
  | nil => simp [insertSource]
  | cons head rest inductionHypothesis =>
    unfold insertSource
    split
    · rename_i same
      subst same
      simp
    · split
      · simp
      · simp only [List.mem_cons, inductionHypothesis]
        exact or_left_comm

/-- Collecting the sources of a list of edges finds each source some edge starts
from, and the ones collected before. -/
theorem mem_sources_iff {edges : List (OutputRef × Consumer)} {source : OutputRef}
    {sources : List OutputRef} :
    source ∈ edges.foldl (fun sources (source, _) => insertSource source sources) sources ↔
      (∃ consumer, (source, consumer) ∈ edges) ∨ source ∈ sources := by
  induction edges generalizing sources with
  | nil => simp
  | cons edge rest inductionHypothesis =>
    obtain ⟨read, consumer⟩ := edge
    rw [List.foldl_cons, inductionHypothesis, mem_insertSource_iff]
    simp only [List.mem_cons, Prod.mk.injEq, exists_or]
    grind

variable {graph : Graph α}

/-- The index has the readers of a value, or nothing if there are none. It is built
by source and therefore agrees with picking the edges of one source. -/
theorem consumerIndex_lookup (graph : Graph α) (source : OutputRef) :
    (graph.consumerIndex.lookup source).getD [] =
      (graph.edges.filter fun (read, _) => read = source).map Prod.snd := by
  let sources := graph.edges.foldl (fun sources (source, _) => insertSource source sources) []
  let readersOf (source : OutputRef) :=
    (graph.edges.filter fun (read, _) => read = source).map Prod.snd
  have index : graph.consumerIndex = sources.map fun source => (source, readersOf source) := rfl
  rw [index]
  by_cases listed : source ∈ sources
  · rw [List.lookup_graph readersOf listed]
    rfl
  · have absent : (sources.map fun source => (source, readersOf source)).lookup source = none := by
      rw [List.lookup_eq_none_iff]
      rintro ⟨other, readers⟩ member
      obtain ⟨_, otherListed, entry⟩ := List.mem_map.mp member
      obtain ⟨rfl, -⟩ := Prod.mk.inj entry
      exact bne_iff_ne.mpr fun same => listed (same ▸ otherListed)
    have unread : graph.edges.filter (fun (read, _) => read = source) = [] := by
      rw [List.filter_eq_nil_iff]
      rintro ⟨read, consumer⟩ edge same
      obtain rfl : read = source := of_decide_eq_true same
      exact listed (mem_sources_iff.mpr (.inl ⟨consumer, edge⟩))
    rw [absent, unread]
    rfl

/-- The edges are those of all inputs. They are listed from the inputs and do not
depend on any reader list. -/
theorem mem_edges_iff {source : OutputRef} {consumer : Consumer} :
    (source, consumer) ∈ graph.edges ↔ graph.Reads consumer source := by
  obtain ⟨reader, input⟩ := consumer
  constructor
  · intro edge
    obtain ⟨⟨id, node⟩, live, listed⟩ := List.mem_flatMap.mp edge
    obtain ⟨rfl, placed⟩ := mem_inputEdges_iff.mp listed
    exact ⟨node, mem_nodes_iff.mp live, placed⟩
  · rintro ⟨node, found, placed⟩
    exact List.mem_flatMap.mpr
      ⟨(reader, node), mem_nodes_iff.mpr found, mem_inputEdges_iff.mpr ⟨rfl, placed⟩⟩

/-- Edges are told by increasing reading node and input. No edge is listed twice,
and those of one source need no sorting. -/
theorem edges_increasing (graph : Graph α) : graph.edges.Pairwise fun first second =>
    first.2.node < second.2.node ∨
      (first.2.node = second.2.node ∧ first.2.input < second.2.input) := by
  rw [edges, List.pairwise_flatMap]
  constructor
  · rintro ⟨id, node⟩ -
    rw [List.pairwise_map]
    have increasing : (node.inputs.zipIdx.map Prod.snd).Pairwise (· < ·) := by
      rw [List.zipIdx_map_snd]
      exact List.pairwise_lt_range'
    exact (List.pairwise_map.mp increasing).imp fun smaller => .inr ⟨rfl, smaller⟩
  · have increasing := graph.nodeIds_increasing
    rw [nodeIds, List.pairwise_map] at increasing
    apply increasing.imp
    rintro ⟨firstId, first⟩ ⟨secondId, second⟩ smaller edge member other memberOther
    obtain ⟨_, _, rfl⟩ := List.mem_map.mp member
    obtain ⟨_, _, rfl⟩ := List.mem_map.mp memberOther
    exact .inl smaller

/-- The readers of a value in the order of the index. It is increasing and free of
repetitions. -/
theorem readers_increasing (graph : Graph α) (source : OutputRef) :
    (((graph.edges.filter fun (read, _) => read = source).map Prod.snd).Pairwise
      fun left right => left.before right = true) ∧
    ((graph.edges.filter fun (read, _) => read = source).map Prod.snd).Nodup := by
  have increasing := graph.edges_increasing.filter fun (read, _) => read = source
  constructor <;> refine List.pairwise_map.mpr (increasing.imp ?_)
  · intro first second smaller
    rw [Consumer.before_iff]
    grind
  · rintro ⟨_, first⟩ ⟨_, second⟩ smaller rfl
    grind

/-- Sorted, the listed readers of a value are those that the index has. Two sorted
lists with the same members and no repetitions are equal. -/
theorem Linked.sorted_consumers (linked : graph.Linked) {source : OutputRef} {slot : OutputSlot}
    (live : graph.outputSlot source = some slot) :
    slot.consumers.foldr insertConsumer [] = (graph.consumerIndex.lookup source).getD [] := by
  rw [consumerIndex_lookup]
  obtain ⟨ordered, distinct⟩ := graph.readers_increasing source
  have same : slot.consumers.Perm
      ((graph.edges.filter fun (read, _) => read = source).map Prod.snd) := by
    rw [List.perm_ext_iff_of_nodup (linked.once source slot live) distinct]
    intro consumer
    rw [linked.listed source slot live consumer, ← mem_edges_iff]
    simp
  exact List.Perm.eq_of_pairwise (fun _ _ _ _ => Consumer.before_antisymm)
    (sortConsumers_sorted slot.consumers) ordered ((sortConsumers_perm slot.consumers).trans same)

end Edges

section Check

variable {graph : Graph α}

/-- A linked graph passes the check of its inputs: every source an input names has a
slot. -/
theorem Linked.checkInputs_eq_ok (linked : graph.Linked) : graph.checkInputs = .ok () := by
  apply forM_eq_ok
  rintro ⟨id, node⟩ member
  apply forM_eq_ok
  rintro ⟨source, input⟩ placed
  have reads : graph.Reads ⟨id, input⟩ source :=
    ⟨node, mem_nodes_iff.mp member, List.mk_mem_zipIdx_iff_getElem?.mp placed⟩
  obtain ⟨slot, live⟩ := linked.produced _ _ reads
  simp [outputType_eq_map, live]

/-- A linked graph passes the comparison of recorded and actual consumers, because
both lists have the same members without repetitions and are compared sorted. -/
theorem Linked.checkConsumers_eq_ok (linked : graph.Linked) : graph.checkConsumers = .ok () := by
  apply forM_eq_ok
  rintro ⟨id, node⟩ member
  apply forM_eq_ok
  rintro ⟨output, slot⟩ placed
  have live : graph.outputSlot ⟨id, slot⟩ = some output := outputSlot_eq_some_iff.mpr
    ⟨node, mem_nodes_iff.mp member, List.mk_mem_zipIdx_iff_getElem?.mp placed⟩
  exact if_pos (linked.sorted_consumers live)

/-- What a lookup by name answers is an entry of the index. -/
theorem mem_names_of_findName {name : String} {id : NodeId}
    (looked : graph.findName name = some id) : (name, id) ∈ graph.names := by
  obtain ⟨before, after, entries, -⟩ := List.lookup_eq_some_iff.mp looked
  simp [entries]

/-- The name of a live node finds it. No other live node has the name. -/
theorem Indexed.findName_of_node (indexed : graph.Indexed) {id : NodeId} {node : Node α}
    (found : graph.node id = some node) : graph.findName node.name = some id := by
  have listed : (node.name, id) ∈ graph.names := (indexed.names _ _).mpr ⟨node, found, rfl⟩
  cases looked : graph.findName node.name with
  | none => exact absurd listed (findName_eq_none_iff.mp looked id)
  | some other => rw [indexed.name_unique (mem_names_of_findName looked) listed]

/-- A name finds the live node that has it. The index is thus as good as a search
through the nodes. -/
theorem Indexed.findName_eq_some_iff (indexed : graph.Indexed) {name : String} {id : NodeId} :
    graph.findName name = some id ↔ ∃ node, graph.node id = some node ∧ node.name = name := by
  constructor
  · exact fun looked => (indexed.names name id).mp (mem_names_of_findName looked)
  · rintro ⟨node, found, rfl⟩
    exact indexed.findName_of_node found

/-- There is one name for each live node. Names and live nodes are in bijection. -/
theorem Indexed.names_length (indexed : graph.Indexed) : graph.names.length = graph.live := by
  have distinct : (graph.names.map Prod.snd).Nodup := by
    refine List.Nodup.map_on ?_ (List.Nodup.of_map Prod.fst indexed.namesOnce)
    rintro ⟨name, id⟩ listed ⟨other, _⟩ listedOther rfl
    obtain ⟨node, found, rfl⟩ := (indexed.names _ _).mp listed
    obtain ⟨again, foundAgain, rfl⟩ := (indexed.names _ _).mp listedOther
    rw [Option.some.inj (found.symm.trans foundAgain)]
  have places : (graph.names.map Prod.snd).Perm graph.nodeIds := by
    rw [List.perm_ext_iff_of_nodup distinct graph.nodeIds_nodup]
    intro id
    rw [mem_nodeIds_iff]
    constructor
    · intro member
      obtain ⟨⟨name, _⟩, listed, rfl⟩ := List.mem_map.mp member
      obtain ⟨node, found, -⟩ := (indexed.names _ _).mp listed
      exact ⟨node, found⟩
    · rintro ⟨node, found⟩
      exact List.mem_map.mpr ⟨(node.name, id), (indexed.names _ _).mpr ⟨node, found, rfl⟩, rfl⟩
  have counted := places.length_eq
  rwa [List.length_map, nodeIds, List.length_map, ← indexed.live] at counted

/-- An indexed graph passes the check of its name index in both directions, from
entries to nodes and from nodes to entries. -/
theorem Indexed.checkNames_eq_ok (indexed : graph.Indexed) : graph.checkNames = .ok () := by
  rw [checkNames, if_neg (not_not_intro indexed.names_length)]
  apply forM_eq_ok
  rintro ⟨id, node⟩ member
  exact if_pos (indexed.findName_of_node (mem_nodes_iff.mp member))

variable [Arithmetic α]

/-- The order of a sound graph has every live node. A shorter order would mean a
cycle. -/
theorem Sound.order_length (sound : graph.Sound) : graph.order.length = graph.live := by
  rw [(sound.linked.order_perm sound.fresh.single sound.acyclic).length_eq, nodeIds,
    List.length_map, ← sound.indexed.live]

/-- A graph whose nodes infer the types they carry passes the check of its types. -/
theorem Fresh.checkTypes_eq_ok (fresh : graph.Fresh) : graph.checkTypes = .ok () := by
  apply forM_eq_ok
  rintro ⟨id, node⟩ member
  obtain ⟨inputs, known, typed⟩ := fresh id node (mem_nodes_iff.mp member)
  have read : node.inputs.filterMap graph.outputType = inputs := by
    have same := congrArg (List.filterMap fun type => type) known
    simpa [List.filterMap_map, Function.comp_def] using same
  simp [read, typed]
  rfl

/-- A sound graph passes all checks. Validation after a successful edit can
therefore never be what fails. -/
theorem Sound.check_eq_ok (sound : graph.Sound) : graph.check = .ok () := by
  have acyclic : graph.checkAcyclic = .ok () := if_pos sound.order_length
  rw [check, sound.linked.checkInputs_eq_ok, Attempt.ok_bind,
    sound.linked.checkConsumers_eq_ok, Attempt.ok_bind, sound.indexed.checkNames_eq_ok,
    Attempt.ok_bind, acyclic, Attempt.ok_bind]
  exact sound.fresh.checkTypes_eq_ok

end Check

end Graph

end RangeFold
