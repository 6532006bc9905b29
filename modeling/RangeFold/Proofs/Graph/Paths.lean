import RangeFold.Graph.Reachability
import RangeFold.Proofs.Graph.Sound
import Mathlib.Algebra.GroupWithZero.Nat

/-!
# Paths

The searches of a graph find what paths lead to, no more and no less. A search counts
down a budget; the budget that a graph allows is enough because each place is expanded
once, so no more places ever wait than there are starts and edges.
-/

namespace RangeFold

open Relation

/-- The number of neighbours of the places not yet seen. -/
def unexplored (next : NodeId → List NodeId) (places seen : List NodeId) : Nat :=
  ((places.filter (· ∉ seen)).map fun place => (next place).length).sum

section Closure

variable {next : NodeId → List NodeId} {places : List NodeId}

/-- The measure of a search splits off the first place waiting: places already seen
contribute nothing. -/
theorem unexplored_cons (place : NodeId) (rest seen : List NodeId) :
    unexplored next (place :: rest) seen =
      (if place ∈ seen then 0 else (next place).length) + unexplored next rest seen := by
  by_cases known : place ∈ seen <;> simp [unexplored, known]

/-- Seeing a place for the first time pays for all of its neighbours. The neighbours
are put on the stack once, and the place never pays again. -/
theorem unexplored_see {place : NodeId} {seen : List NodeId} (fresh : place ∉ seen)
    (covered : place ∈ places ∨ next place = []) :
    (next place).length + unexplored next places (place :: seen) ≤
      unexplored next places seen := by
  induction places with
  | nil =>
    have isolated : next place = [] := covered.resolve_left List.not_mem_nil
    simp [isolated, unexplored]
  | cons head rest inductionHypothesis =>
    rw [unexplored_cons, unexplored_cons]
    have smaller : unexplored next rest (place :: seen) ≤ unexplored next rest seen := by
      clear inductionHypothesis covered
      induction rest with
      | nil => exact Nat.le_refl _
      | cons other rest inductionHypothesis =>
        rw [unexplored_cons, unexplored_cons]
        by_cases known : other ∈ seen
        · simpa [known] using inductionHypothesis
        · by_cases same : other = place
          · simp only [same, List.mem_cons_self, if_true, if_neg fresh]
            omega
          · simp only [List.mem_cons, same, known, or_self, if_false]
            omega
    by_cases same : head = place
    · subst same
      simp only [List.mem_cons_self, if_true, if_neg fresh]
      omega
    · have coveredRest : place ∈ rest ∨ next place = [] := by
        rcases covered with member | isolated
        · exact Or.inl ((List.mem_cons.mp member).resolve_left (Ne.symm same))
        · exact Or.inr isolated
      have others := inductionHypothesis coveredRest
      by_cases known : head ∈ seen <;> simp [known, same] <;> omega

/-- A search finds nothing but what was seen before and what a waiting place
reaches. This half needs no budget, by induction on the steps of the search. -/
theorem closure_reached {budget : Nat} {waiting seen : List NodeId} {place : NodeId}
    (found : place ∈ closure next budget waiting seen) :
    place ∈ seen ∨ ∃ start ∈ waiting, ReflTransGen (fun first second => second ∈ next first)
      start place := by
  fun_induction closure next budget waiting seen with
  | case1 budget seen => exact Or.inl found
  | case2 first rest seen => exact Or.inl found
  | case3 budget first rest seen known inductionHypothesis =>
    rcases inductionHypothesis found with old | ⟨start, waits, path⟩
    · exact Or.inl old
    · exact Or.inr ⟨start, List.mem_cons_of_mem first waits, path⟩
  | case4 budget first rest seen fresh inductionHypothesis =>
    rcases inductionHypothesis found with old | ⟨start, waits, path⟩
    · rcases List.mem_cons.mp old with rfl | old
      · exact Or.inr ⟨place, List.mem_cons_self, ReflTransGen.refl⟩
      · exact Or.inl old
    · rcases List.mem_append.mp waits with neighbour | waits
      · exact Or.inr ⟨first, List.mem_cons_self, ReflTransGen.head neighbour path⟩
      · exact Or.inr ⟨start, List.mem_cons_of_mem first waits, path⟩

/-- With budget enough for the waiting places and for the neighbours of the places to be
seen, a search takes up every waiting place and every neighbour of what it adds. -/
theorem closure_complete {budget : Nat} {waiting seen : List NodeId}
    (covered : ∀ place, place ∈ places ∨ next place = [])
    (enough : waiting.length + unexplored next places seen ≤ budget) :
    (∀ place ∈ seen, place ∈ closure next budget waiting seen) ∧
      (∀ place ∈ waiting, place ∈ closure next budget waiting seen) ∧
      ∀ place ∈ closure next budget waiting seen, place ∉ seen →
        ∀ neighbour ∈ next place, neighbour ∈ closure next budget waiting seen := by
  fun_induction closure next budget waiting seen with
  | case1 budget seen =>
    exact ⟨fun _ member => member, fun _ waits => absurd waits List.not_mem_nil,
      fun _ member fresh => absurd member fresh⟩
  | case2 first rest seen => simp at enough
  | case3 budget first rest seen known inductionHypothesis =>
    have old : first ∈ seen := List.contains_iff_mem.mp known
    obtain ⟨keeps, takes, closes⟩ := inductionHypothesis (by simp at enough; omega)
    refine ⟨keeps, ?_, closes⟩
    intro place waits
    rcases List.mem_cons.mp waits with rfl | waits
    · exact keeps place old
    · exact takes place waits
  | case4 budget first rest seen fresh inductionHypothesis =>
    have new : first ∉ seen := fun old => fresh (List.contains_iff_mem.mpr old)
    have paid := unexplored_see new (covered first)
    obtain ⟨keeps, takes, closes⟩ := inductionHypothesis (by simp at enough ⊢; omega)
    have taken := keeps first List.mem_cons_self
    refine ⟨fun place old => keeps place (List.mem_cons_of_mem first old), ?_, ?_⟩
    · intro place waits
      rcases List.mem_cons.mp waits with rfl | waits
      · exact taken
      · exact takes place (List.mem_append_right _ waits)
    · intro place found unseen neighbour adjacent
      by_cases same : place = first
      · subst same
        exact takes neighbour (List.mem_append_left _ adjacent)
      · refine closes place found ?_ neighbour adjacent
        intro old
        exact unseen ((List.mem_cons.mp old).resolve_left same)

/-- A search from several starts, with budget enough, finds exactly what they reach.
The budget has to cover the starts and all neighbours of all places, which is one
step for every edge. -/
theorem mem_closure_iff {budget : Nat} {starts : List NodeId} {goal : NodeId}
    (covered : ∀ place, place ∈ places ∨ next place = [])
    (enough : starts.length + unexplored next places [] ≤ budget) :
    goal ∈ closure next budget starts [] ↔
      ∃ start ∈ starts, ReflTransGen (fun first second => second ∈ next first) start goal := by
  constructor
  · intro found
    exact (closure_reached found).resolve_left List.not_mem_nil
  · rintro ⟨start, waits, path⟩
    obtain ⟨_, takes, closes⟩ := closure_complete covered enough
    induction path with
    | refl => exact takes start waits
    | tail _ step inductionHypothesis =>
      exact closes _ inductionHypothesis List.not_mem_nil _ step

end Closure

variable {α : Type}

namespace Graph

/-- The readers of a linked node are the nodes it feeds. One list is recorded at the
outputs, the other relation is read off the inputs. -/
theorem Linked.mem_readers_iff {graph : Graph α} (linked : graph.Linked) {producer reader : NodeId} :
    reader ∈ graph.readers producer ↔ graph.Feeds producer reader := by
  constructor
  · intro member
    cases found : graph.node producer with
    | none => simp [readers, found] at member
    | some node =>
      simp only [readers, found, Node.consumers, List.mem_map, List.mem_flatMap] at member
      obtain ⟨consumer, ⟨slot, output, listed⟩, rfl⟩ := member
      obtain ⟨index, placed⟩ := List.getElem?_of_mem output
      have live : graph.outputSlot ⟨producer, index⟩ = some slot :=
        outputSlot_eq_some_iff.mpr ⟨node, found, placed⟩
      exact ⟨consumer.input, index, (linked.listed _ slot live consumer).mp listed⟩
  · rintro ⟨input, index, reads⟩
    obtain ⟨slot, live⟩ := linked.produced _ _ reads
    have listed : (⟨reader, input⟩ : Consumer) ∈ slot.consumers :=
      (linked.listed _ slot live _).mpr reads
    obtain ⟨node, found, placed⟩ := outputSlot_eq_some_iff.mp live
    have output : slot ∈ node.outputs := List.mem_of_getElem? placed
    simp only [readers, found, Node.consumers, List.mem_map, List.mem_flatMap]
    exact ⟨⟨reader, input⟩, ⟨slot, output, listed⟩, rfl⟩

/-- The feeders of a node are the nodes that feed it. They are read off its inputs,
so nothing has to be known of the reader lists. -/
theorem mem_feeders_iff {graph : Graph α} {producer reader : NodeId} :
    producer ∈ graph.feeders reader ↔ graph.Feeds producer reader := by
  constructor
  · intro member
    cases found : graph.node reader with
    | none => simp [feeders, found] at member
    | some node =>
      simp only [feeders, found, List.mem_map] at member
      obtain ⟨source, listed, rfl⟩ := member
      obtain ⟨input, placed⟩ := List.getElem?_of_mem listed
      exact ⟨input, source.slot, node, found, placed⟩
  · rintro ⟨input, slot, node, found, placed⟩
    have listed : (⟨producer, slot⟩ : OutputRef) ∈ node.inputs := List.mem_of_getElem? placed
    simp only [feeders, found, List.mem_map]
    exact ⟨_, listed, rfl⟩

/-- The consumers of a node over all its outputs are as many as it counts. -/
theorem consumers_length (node : Node α) : node.consumers.length = node.consumerCount := by
  unfold Node.consumers Node.consumerCount
  induction node.outputs with
  | nil => rfl
  | cons output rest inductionHypothesis => simp [inductionHypothesis]

/-- The neighbours of all nodes are counted node by node. The sum over the places
becomes a fold over the live nodes, which is how budgets are computed. -/
theorem unexplored_nodeIds {graph : Graph α} {next : NodeId → List NodeId}
    (measure : Node α → Nat)
    (sized : ∀ id node, graph.node id = some node → (next id).length = measure node) :
    unexplored next graph.nodeIds [] =
      graph.nodes.foldr (fun (_, node) total => measure node + total) 0 := by
  have counted (items : List (NodeId × Node α))
      (live : ∀ item ∈ items, graph.node item.1 = some item.2) :
      unexplored next (items.map Prod.fst) [] =
        items.foldr (fun (_, node) total => measure node + total) 0 := by
    induction items with
    | nil => rfl
    | cons item rest inductionHypothesis =>
      have others := inductionHypothesis fun other member =>
        live other (List.mem_cons_of_mem item member)
      rw [List.map_cons, unexplored_cons, others, if_neg List.not_mem_nil,
        sized item.1 item.2 (live item List.mem_cons_self)]
      rfl
  exact counted graph.nodes fun item member => mem_nodes_iff.mp member

/-- What a search forward may have to take up is one place for each edge. It is what
the forward budget consists of, besides the start. -/
theorem unexplored_readers (graph : Graph α) :
    unexplored graph.readers graph.nodeIds [] = graph.edgeCount := by
  apply unexplored_nodeIds Node.consumerCount
  intro id node found
  simp [readers, found, consumers_length]

/-- What a search backward may have to take up is one place for each input. It is
what the backward budget consists of, besides the goals. -/
theorem unexplored_feeders (graph : Graph α) :
    unexplored graph.feeders graph.nodeIds [] = graph.inputCount := by
  apply unexplored_nodeIds fun node => node.inputs.length
  intro id node found
  simp [feeders, found]

/-- An empty place has neither readers nor feeders. Searching from one ends at once. -/
theorem readers_covered (graph : Graph α) (place : NodeId) :
    place ∈ graph.nodeIds ∨ graph.readers place = [] := by
  cases found : graph.node place with
  | none => exact Or.inr (by simp [readers, found])
  | some node => exact Or.inl (mem_nodeIds_iff.mpr ⟨node, found⟩)

/-- A place that is not a live node has no feeders, so the live nodes bound what any
search can still visit. -/
theorem feeders_covered (graph : Graph α) (place : NodeId) :
    place ∈ graph.nodeIds ∨ graph.feeders place = [] := by
  cases found : graph.node place with
  | none => exact Or.inr (by simp [feeders, found])
  | some node => exact Or.inl (mem_nodeIds_iff.mpr ⟨node, found⟩)

/-- The search for dependencies finds exactly the nodes from which a path leads to one
of the given ones. -/
theorem mem_dependencies_iff (graph : Graph α) {ids : List NodeId} {id : NodeId} :
    id ∈ graph.dependencies ids ↔ ∃ goal ∈ ids, ReflTransGen graph.Feeds id goal := by
  have neighbours : (fun first second => second ∈ graph.feeders first) =
      Function.swap graph.Feeds := by
    funext first second
    exact propext mem_feeders_iff
  rw [dependencies, mem_closure_iff graph.feeders_covered (by
    rw [unexplored_feeders]
    omega), neighbours]
  simp only [reflTransGen_swap]

/-- The search for dependents finds exactly what paths from the node lead to. The
budget is always enough, so the answer no is to be trusted as well. -/
theorem Linked.reaches_iff {graph : Graph α} (linked : graph.Linked) {start goal : NodeId} :
    graph.reaches start goal = true ↔ ReflTransGen graph.Feeds start goal := by
  have neighbours : (fun first second => second ∈ graph.readers first) = graph.Feeds := by
    funext first second
    exact propext linked.mem_readers_iff
  have search : goal ∈ graph.dependents start ↔ ReflTransGen graph.Feeds start goal := by
    rw [dependents, mem_closure_iff graph.readers_covered (by rw [unexplored_readers]; simp; omega), neighbours]
    simp
  simp only [reaches, Bool.or_eq_true, beq_iff_eq, List.contains_iff_mem, search]
  constructor
  · rintro (rfl | path)
    · exact ReflTransGen.refl
    · exact path
  · exact Or.inr

end Graph

end RangeFold
