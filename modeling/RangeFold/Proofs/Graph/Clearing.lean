import RangeFold.Graph.Pruning
import RangeFold.Proofs.Graph.Order
import RangeFold.Proofs.Graph.Removal

/-!
# Clearing

Several nodes can be removed one after the other if only they read one another and each
has lost its readers when its turn comes. What is left are the other nodes without the
removed readers, so the order in which the nodes went shows nowhere.

Pruning is such a clearing: no node that is needed reads one that is not, and in reverse
topological order readers go first. What is left needs no further pruning.
-/

namespace RangeFold

open Relation

variable {α : Type}

namespace Graph

/-- The graph without some nodes, which are taken out in turn. -/
def cleared (graph : Graph α) : List NodeId → Graph α
  | [] => graph
  | id :: rest => (graph.detach id (graph.displayName id)).cleared rest

/-- Live nodes that only read one another, each read by earlier ones only. -/
structure Clearable (graph : Graph α) (ids : List NodeId) : Prop where
  distinct : ids.Nodup
  live : ∀ id ∈ ids, ∃ node, graph.node id = some node
  closed : ∀ id ∈ ids, ∀ reader, graph.Feeds id reader → reader ∈ ids
  turns : ids.Pairwise fun first second => ¬ graph.Feeds first second

section Clear

variable {graph : Graph α} {id : NodeId} {ids rest : List NodeId}

/-- A live node is displayed under its own name; the placeholder is for ids that are
free. -/
theorem displayName_of_node {node : Node α} (found : graph.node id = some node) :
    graph.displayName id = node.name := by
  simp [displayName, found]

/-- A node that feeds no node has no consumers. The count is what the check before a
removal looks at. -/
theorem Linked.idle (linked : graph.Linked) {node : Node α} (found : graph.node id = some node)
    (unread : ∀ reader, ¬ graph.Feeds id reader) : node.consumerCount = 0 := by
  rw [← consumers_length, List.length_eq_zero_iff, ← List.map_eq_nil_iff (f := Consumer.node),
    List.eq_nil_iff_forall_not_mem]
  intro reader member
  have listed : reader ∈ graph.readers id := by simpa [readers, found] using member
  exact unread reader (linked.mem_readers_iff.mp listed)

/-- The reads of what is left are those by the nodes left. That they read nothing
that is gone has to be known apart from this. -/
theorem reads_cleared_iff {consumer : Consumer} {source : OutputRef} :
    (graph.cleared ids).Reads consumer source ↔
      graph.Reads consumer source ∧ consumer.node ∉ ids := by
  induction ids generalizing graph with
  | nil => simp [cleared]
  | cons first others inductionHypothesis =>
    rw [cleared, inductionHypothesis, reads_detach_iff, List.mem_cons, not_or, and_assoc]

/-- Clearing a set of nodes removes the edges into them. Edges out of them are gone
only because nothing that remains read them. -/
theorem feeds_cleared_iff {producer reader : NodeId} :
    (graph.cleared ids).Feeds producer reader ↔ graph.Feeds producer reader ∧ reader ∉ ids := by
  simp only [Feeds, reads_cleared_iff, exists_and_right]

/-- A node that is left has lost the readers that are gone. Everything else about it
is the same. -/
theorem node_cleared (graph : Graph α) (ids : List NodeId) (other : NodeId) :
    (graph.cleared ids).node other = if other ∈ ids then none else (graph.node other).map
      (Node.relist (fun _ readers => readers.filter fun reader => reader.node ∉ ids) other) := by
  induction ids generalizing graph with
  | nil =>
    have unchanged : Node.relist (α := α) (fun _ readers => readers) other = fun node => node := by
      funext node
      exact node.relist_eq_self _ other fun _ _ _ => rfl
    simp [cleared, unchanged]
  | cons first others inductionHypothesis =>
    rw [cleared, inductionHypothesis, node_detach]
    by_cases gone : other = first
    · simp [gone]
    · by_cases goneLater : other ∈ others
      · simp [goneLater]
      · simp only [gone, goneLater, List.mem_cons, or_self, if_false, Option.map_map]
        congr 1
        funext node
        simp [Node.relist, List.mapIdx_mapIdx, Function.comp_def, List.filter_filter,
          Bool.and_comm]

/-- The list of parameters loses the cleared ids and keeps its order. -/
theorem parameters_cleared (graph : Graph α) (ids : List NodeId) :
    (graph.cleared ids).parameters = graph.parameters.filter (· ∉ ids) := by
  induction ids generalizing graph with
  | nil => simp [cleared]
  | cons first others inductionHypothesis =>
    rw [cleared, inductionHypothesis, parameters_detach, List.filter_filter]
    apply List.filter_congr
    simp [Bool.and_comm]

/-- The list of results loses the cleared ids and keeps its order. -/
theorem results_cleared (graph : Graph α) (ids : List NodeId) :
    (graph.cleared ids).results = graph.results.filter (· ∉ ids) := by
  induction ids generalizing graph with
  | nil => simp [cleared]
  | cons first others inductionHypothesis =>
    rw [cleared, inductionHypothesis, results_detach, List.filter_filter]
    apply List.filter_congr
    simp [Bool.and_comm]

/-- The first of the nodes is read by none. Its readers would come before it in the
list, and it is the first. -/
theorem Clearable.unread (clearable : graph.Clearable (id :: rest)) (acyclic : graph.Acyclic)
    (reader : NodeId) : ¬ graph.Feeds id reader := by
  intro feeds
  rcases List.mem_cons.mp (clearable.closed id List.mem_cons_self reader feeds) with rfl | later
  · exact acyclic reader (.single feeds)
  · exact (List.pairwise_cons.mp clearable.turns).1 reader later feeds

/-- Without the first node the others can be removed. The readers of the next one
are gone by then. -/
theorem Clearable.tail (clearable : graph.Clearable (id :: rest)) (name : String) :
    (graph.detach id name).Clearable rest where
  distinct := (List.nodup_cons.mp clearable.distinct).2
  live other member := by
    obtain ⟨node, found⟩ := clearable.live other (List.mem_cons_of_mem _ member)
    have stays : other ≠ id := fun same =>
      (List.nodup_cons.mp clearable.distinct).1 (same ▸ member)
    exact ⟨_, by rw [node_detach, if_neg stays, found]; rfl⟩
  closed other member reader feeds := by
    obtain ⟨input, slot, reads⟩ := feeds
    obtain ⟨readsBefore, stays⟩ := reads_detach_iff.mp reads
    have among := clearable.closed other (List.mem_cons_of_mem _ member) reader
      ⟨input, slot, readsBefore⟩
    exact (List.mem_cons.mp among).resolve_left stays
  turns := (List.pairwise_cons.mp clearable.turns).2.imp fun apart feeds =>
    apart (feeds_of_detach feeds)

/-- Removing nodes and then one more is removing one node more. The chain of a
folded range is removed with its constant in this way. -/
theorem removeEach_concat {β : Type} (ids : List NodeId) (last : NodeId)
    (next : Attempt (Graph α) β) (graph : Graph α) :
    (removeEach ids >>= fun _ => removeNode last >>= fun _ => next) graph =
      (removeEach (ids ++ [last]) >>= fun _ => next) graph := by
  induction ids generalizing graph with
  | nil =>
    rcases removed : removeNode last graph with ⟨_ | node, after⟩ <;>
      simp [removeEach, Attempt.forEach, Attempt.bind_apply, Attempt.andThen, removed,
        Attempt.answer]
  | cons first others inductionHypothesis =>
    rcases removed : removeNode first graph with ⟨failure | node, after⟩
    · simp [removeEach, Attempt.forEach, Attempt.bind_apply, Attempt.andThen, removed]
    · have rest := inductionHypothesis after
      simpa [removeEach, Attempt.forEach, Attempt.bind_apply, Attempt.andThen, removed] using rest

variable [Arithmetic α]

/-- A removed node counts as live no longer. The counter stays in step with the
arena. -/
theorem Sound.live_detach (sound : graph.Sound) {node : Node α}
    (found : graph.node id = some node) (name : String) :
    (graph.detach id name).live + 1 = graph.live := by
  have listed : id ∈ graph.nodeIds := mem_nodeIds_iff.mpr ⟨node, found⟩
  have some : 0 < graph.live := by
    rw [sound.indexed.live, ← List.length_map (f := Prod.fst)]
    exact List.length_pos_of_mem listed
  exact Nat.sub_add_cancel some

/-- The first of such nodes can be removed, which leaves the others to be removed.
It is the step of the induction that removes them all. -/
theorem Clearable.removeNode_eq (clearable : graph.Clearable (id :: rest)) (sound : graph.Sound) :
    ∃ node, removeNode id graph = (.ok node, graph.cleared [id]) ∧ (graph.cleared [id]).Sound ∧
      (graph.cleared [id]).Clearable rest := by
  obtain ⟨node, found⟩ := clearable.live id List.mem_cons_self
  have idle := sound.linked.idle found (clearable.unread sound.acyclic)
  have named : graph.displayName id = node.name := displayName_of_node found
  refine ⟨node, ?_, ?_, ?_⟩
  · rw [cleared, cleared, named]
    exact sound.linked.removeNode_eq found idle
  · rw [cleared, cleared, named]
    exact sound.detach found idle
  · exact clearable.tail (graph.displayName id)

/-- Such nodes are removed in turn, and the graph stays sound. By induction on the
nodes, each being unread when its turn comes. -/
theorem Sound.removeEach_eq (sound : graph.Sound) (clearable : graph.Clearable ids) :
    removeEach ids graph = (.ok (), graph.cleared ids) ∧ (graph.cleared ids).Sound ∧
      (graph.cleared ids).live + ids.length = graph.live := by
  induction ids generalizing graph with
  | nil => exact ⟨rfl, sound, rfl⟩
  | cons first others inductionHypothesis =>
    obtain ⟨node, removed, soundAfter, clearableAfter⟩ := clearable.removeNode_eq sound
    obtain ⟨rest, soundLast, counted⟩ := inductionHypothesis soundAfter clearableAfter
    obtain ⟨_, found⟩ := clearable.live first List.mem_cons_self
    have one : (graph.cleared [first]).live + 1 = graph.live :=
      sound.live_detach found (graph.displayName first)
    have counted : (graph.cleared (first :: others)).live + others.length =
        (graph.cleared [first]).live := counted
    refine ⟨?_, soundLast, ?_⟩
    · have step : (do let _ ← removeNode first : Attempt (Graph α) Unit) graph =
          (.ok (), graph.cleared [first]) := by
        rw [Attempt.bind_of_ok removed]
        rfl
      rw [removeEach, Attempt.forEach_cons, Attempt.bind_of_ok step]
      exact rest
    · rw [List.length_cons]
      omega

end Clear

section Prune

variable {graph : Graph α} {id : NodeId}

/-- Needed is what a result or a parameter depends on. The walk from the goals back
along the inputs reaches exactly those. -/
theorem mem_needed_iff : id ∈ graph.needed ↔
    ∃ goal, (goal ∈ graph.results ∨ goal ∈ graph.parameters) ∧
      ReflTransGen graph.Feeds id goal := by
  simp only [needed, mem_dependencies_iff, List.mem_append]

/-- What feeds a needed node is needed. It lies on a path to the same goal. -/
theorem needed_of_feeds {reader : NodeId} (feeds : graph.Feeds id reader)
    (needed : reader ∈ graph.needed) : id ∈ graph.needed := by
  obtain ⟨goal, exit, path⟩ := mem_needed_iff.mp needed
  exact mem_needed_iff.mpr ⟨goal, exit, .head feeds path⟩

/-- The graph without what is not needed. -/
def pruned (graph : Graph α) : Graph α := graph.cleared graph.unneeded

/-- A graph without unneeded nodes is left as it is by pruning. -/
theorem pruned_of_unneeded (needed : graph.unneeded = []) : graph.pruned = graph := by
  rw [pruned, needed, cleared]

variable [Arithmetic α]

/-- The nodes that are not needed are the other live ones. The order lists all live
nodes, so filtering it loses none. -/
theorem Sound.mem_unneeded_iff (sound : graph.Sound) :
    id ∈ graph.unneeded ↔ (∃ node, graph.node id = some node) ∧ id ∉ graph.needed := by
  simp [unneeded, reverseOrder,
    sound.linked.mem_order_iff sound.fresh.single sound.acyclic]

/-- Nodes that are not needed can be removed in reverse topological order. Readers
come first then, and a reader of such a node is not needed either. -/
theorem Sound.clearable_unneeded (sound : graph.Sound) : graph.Clearable graph.unneeded where
  distinct := by
    have listed := sound.linked.order_perm sound.fresh.single sound.acyclic
    have distinct : graph.order.Nodup := listed.nodup_iff.mpr graph.nodeIds_nodup
    exact (List.nodup_reverse.mpr distinct).filter _
  live id member := (sound.mem_unneeded_iff.mp member).1
  closed id member reader feeds := by
    obtain ⟨-, superfluous⟩ := sound.mem_unneeded_iff.mp member
    obtain ⟨input, slot, node, found, placed⟩ := feeds
    exact sound.mem_unneeded_iff.mpr ⟨⟨node, found⟩, fun needed =>
      superfluous (needed_of_feeds ⟨input, slot, node, found, placed⟩ needed)⟩
  turns := by
    have unfed := sound.linked.order_unfed sound.fresh.single
    exact (List.pairwise_reverse.mpr unfed).filter _

/-- On a sound graph pruning succeeds in closed form: it answers the number of
unneeded nodes, clears exactly those, keeps the graph sound, and the live nodes
account for the number. -/
theorem Sound.prune_eq (sound : graph.Sound) :
    prune graph = (.ok graph.unneeded.length, graph.pruned) ∧ graph.pruned.Sound ∧
      graph.pruned.live + graph.unneeded.length = graph.live := by
  obtain ⟨removed, soundAfter, counted⟩ := sound.removeEach_eq sound.clearable_unneeded
  refine ⟨?_, soundAfter, counted⟩
  rw [prune, Attempt.read_bind, Attempt.bind_of_ok removed]
  rfl

/-- Pruning leaves nothing that is not needed. Hence a second pruning removes
nothing. -/
theorem Sound.unneeded_pruned (sound : graph.Sound) : graph.pruned.unneeded = [] := by
  obtain ⟨-, soundAfter, -⟩ := sound.prune_eq
  rw [List.eq_nil_iff_forall_not_mem]
  intro id member
  obtain ⟨⟨node, found⟩, superfluous⟩ := soundAfter.mem_unneeded_iff.mp member
  have stays : id ∉ graph.unneeded := by
    intro gone
    simp [pruned, node_cleared, gone] at found
  have needed : id ∈ graph.needed := by
    by_contra absent
    rw [pruned, node_cleared, if_neg stays] at found
    obtain ⟨before, foundBefore, -⟩ := Option.map_eq_some_iff.mp found
    exact stays (sound.mem_unneeded_iff.mpr ⟨⟨before, foundBefore⟩, absent⟩)
  obtain ⟨goal, exit, path⟩ := mem_needed_iff.mp needed
  apply superfluous
  -- Every node on the path is needed, so the path is still there.
  have pathAfter : ReflTransGen graph.pruned.Feeds id goal := by
    clear found superfluous stays needed member
    induction path using ReflTransGen.head_induction_on with
    | refl => exact .refl
    | head feeds rest inductionHypothesis =>
      refine .head (feeds_cleared_iff.mpr ⟨feeds, fun gone => ?_⟩) inductionHypothesis
      exact (sound.mem_unneeded_iff.mp gone).2 (mem_needed_iff.mpr ⟨goal, exit, rest⟩)
  have kept : goal ∉ graph.unneeded := fun gone =>
    (sound.mem_unneeded_iff.mp gone).2 (mem_needed_iff.mpr ⟨goal, exit, .refl⟩)
  refine mem_needed_iff.mpr ⟨goal, ?_, pathAfter⟩
  rw [pruned, parameters_cleared, results_cleared, List.mem_filter, List.mem_filter]
  simpa [kept] using exit

end Prune

end Graph

end RangeFold
