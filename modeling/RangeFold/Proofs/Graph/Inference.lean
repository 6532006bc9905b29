import RangeFold.Proofs.Graph.Order
import RangeFold.Proofs.Graph.Propagation

/-!
# Inference in order

All nodes of a graph can be typed in one go, producers before consumers, each from the
types just found for what it reads. This succeeds exactly if there are types for all nodes
that follow from one another, and then finds them.

A propagation, which visits nodes as changes reach them, types a node before all that it
reads is settled if changes come to it on two ways, and may fail there. Where every node
is reached on one way only, a propagation succeeds if inference in order does.
-/

namespace RangeFold

open Relation

variable {α : Type}

/-- The output types of a node by the types of what it reads. -/
def Node.inferFrom [Arithmetic α] (node : Node α) (types : OutputRef → Option TensorType) :
    Except Failure (List TensorType) := do
  let inputs ← node.inputs.mapM fun source =>
    match types source with
    | some type => .ok type
    | none => .error (.typing node.name (.deadInput source))
  inferOutputs node.kind node.name inputs node.attributes

/-- The computed inference and the relation agree. The relation is what invariants
speak of, since it does not mention the order in which the checks are made. -/
theorem Node.inferFrom_eq_ok_iff [Arithmetic α] {node : Node α}
    {types : OutputRef → Option TensorType} {outputs : List TensorType} :
    node.inferFrom types = .ok outputs ↔ node.Infers types outputs := by
  have answers (inputs : List TensorType) : (node.inputs.mapM fun source =>
      match types source with
      | some type => (.ok type : Except Failure TensorType)
      | none => .error (.typing node.name (.deadInput source))) = .ok inputs ↔
        node.inputs.map types = inputs.map some := by
    apply mapM_eq_ok_iff
    intro source type
    cases types source <;> simp
  constructor
  · intro inferred
    obtain ⟨inputs, known, typed⟩ := Attempt.bind_eq_ok_iff.mp inferred
    exact ⟨inputs, (answers inputs).mp known, typed⟩
  · rintro ⟨inputs, known, typed⟩
    exact Attempt.bind_eq_ok_iff.mpr ⟨inputs, (answers inputs).mpr known, typed⟩

namespace Graph

/-- Type the listed nodes in turn, each from the types known by then. -/
def inferAlong [Arithmetic α] (graph : Graph α) :
    List NodeId → TypeAssignment → Except Failure TypeAssignment
  | [], types => .ok types
  | id :: rest, types => do
    let node ← graph.nodeAt id
    let outputs ← node.inferFrom types.typeOf
    inferAlong graph rest (Function.update types id outputs)

/-- Type all nodes in the order of the graph, without regard to the stored types. -/
def inferAll [Arithmetic α] (graph : Graph α) : Except Failure TypeAssignment :=
  graph.inferAlong graph.order fun _ => []

/-- Everything that feeds a ready node has been listed. A supply of it would
otherwise still be owed. -/
theorem Linked.feeders_listed {graph : Graph α} (linked : graph.Linked) {done : List NodeId} {reader : NodeId}
    (ready : Readiness.Ready graph.readers graph.nodeIds done reader) {producer : NodeId}
    (feeds : graph.Feeds producer reader) : producer ∈ done := by
  by_contra unlisted
  obtain ⟨input, slot, reads⟩ := feeds
  obtain ⟨output, live⟩ := linked.produced _ _ reads
  obtain ⟨node, found, _⟩ := outputSlot_eq_some_iff.mp live
  exact ready.supplied (Readiness.mem_outstanding_iff.mpr
    ⟨producer, mem_nodeIds_iff.mpr ⟨node, found⟩, unlisted,
      linked.mem_readers_iff.mpr ⟨input, slot, reads⟩⟩)

section InferAlong

variable [Arithmetic α] {graph : Graph α}

/-- One step of inference in order. The types found so far are those that the node
infers from. -/
theorem inferAlong_cons {id : NodeId} {rest : List NodeId} {types final : TypeAssignment} :
    graph.inferAlong (id :: rest) types = .ok final ↔
      ∃ node outputs, graph.node id = some node ∧ node.Infers types.typeOf outputs ∧
        graph.inferAlong rest (Function.update types id outputs) = .ok final := by
  simp only [inferAlong, Attempt.bind_eq_ok_iff, nodeAt_eq_ok_iff, Node.inferFrom_eq_ok_iff]
  constructor
  · rintro ⟨node, found, outputs, typed, others⟩
    exact ⟨node, outputs, found, typed, others⟩
  · rintro ⟨node, outputs, found, typed, others⟩
    exact ⟨node, found, outputs, typed, others⟩

/-- Two assignments under which a node is consistent agree at it if they agree at what
feeds it. -/
theorem Consistent.eq {first second : TypeAssignment} {id : NodeId} {node : Node α}
    (consistent : graph.Consistent first id) (other : graph.Consistent second id)
    (found : graph.node id = some node)
    (agree : ∀ producer, graph.Feeds producer id → first producer = second producer) :
    first id = second id := by
  apply (consistent node found).unique
  apply (other node found).congr
  intro source listed
  obtain ⟨input, placed⟩ := List.getElem?_of_mem listed
  rw [TypeAssignment.typeOf, agree source.node ⟨input, source.slot, node, found, placed⟩]
  rfl

/-- What inference in order finds is consistent. Each node is typed after everything
that feeds it, and nothing is typed a second time. -/
theorem inferAlong_sound (linked : graph.Linked) {earlier : Nat → Nat → Bool}
    {done rest : List NodeId}
    (listing : Readiness.Listing earlier graph.readers graph.nodeIds done rest)
    {types final : TypeAssignment} (inferred : graph.inferAlong rest types = .ok final)
    (closed : ∀ id ∈ done, ∀ producer, graph.Feeds producer id → producer ∈ done)
    (settled : ∀ id ∈ done, graph.Consistent types id) :
    (∀ id, id ∈ done ∨ id ∈ rest → graph.Consistent final id) ∧
      ∀ id, id ∉ rest → final id = types id := by
  induction listing generalizing types with
  | finished =>
    obtain rfl : types = final := Except.ok.inj inferred
    exact ⟨fun id listed => settled id (listed.resolve_right List.not_mem_nil), fun _ _ => rfl⟩
  | @next done rest place ready _ _ inductionHypothesis =>
    obtain ⟨node, outputs, found, typed, others⟩ := inferAlong_cons.mp inferred
    have fed (producer : NodeId) (feeds : graph.Feeds producer place) : producer ∈ done :=
      linked.feeders_listed ready feeds
    have here : graph.Consistent (Function.update types place outputs) place := by
      intro again foundAgain
      obtain rfl : node = again := Option.some.inj (found.symm.trans foundAgain)
      rw [Function.update_self]
      apply typed.congr
      intro source listed
      have elsewhere : source.node ≠ place := by
        rintro same
        obtain ⟨input, placed⟩ := List.getElem?_of_mem listed
        exact ready.unlisted (same ▸ fed source.node ⟨input, source.slot, node, found, placed⟩)
      rw [TypeAssignment.typeOf, TypeAssignment.typeOf, Function.update_of_ne elsewhere]
    obtain ⟨consistent, kept⟩ := inductionHypothesis others
      (by
        intro id listed producer feeds
        rcases List.mem_cons.mp listed with rfl | listed
        · exact List.mem_cons_of_mem _ (fed producer feeds)
        · exact List.mem_cons_of_mem _ (closed id listed producer feeds))
      (by
        intro id listed
        rcases List.mem_cons.mp listed with rfl | listed
        · exact here
        · have apart : id ≠ place := fun same => ready.unlisted (same ▸ listed)
          exact (settled id listed).update apart fun feeds =>
            ready.unlisted (closed id listed place feeds))
    constructor
    · intro id listed
      apply consistent
      simpa [or_assoc, or_left_comm] using listed
    · intro id unlisted
      obtain ⟨apart, later⟩ := List.ne_and_not_mem_of_not_mem_cons unlisted
      rw [kept id later, Function.update_of_ne apart]

/-- Inference in order finds whatever is consistent. The types found agree with it
step by step, so no node is refused. -/
theorem inferAlong_complete (linked : graph.Linked) {earlier : Nat → Nat → Bool}
    {done rest : List NodeId}
    (listing : Readiness.Listing earlier graph.readers graph.nodeIds done rest)
    {goal types : TypeAssignment} (consistent : ∀ id, graph.Consistent goal id)
    (agree : ∀ id ∈ done, types id = goal id) :
    ∃ final, graph.inferAlong rest types = .ok final ∧ (∀ id ∈ rest, final id = goal id) ∧
      ∀ id, id ∉ rest → final id = types id := by
  induction listing generalizing types with
  | finished => exact ⟨types, rfl, fun _ listed => absurd listed List.not_mem_nil, fun _ _ => rfl⟩
  | @next done rest place ready _ listing inductionHypothesis =>
    obtain ⟨node, found⟩ := mem_nodeIds_iff.mp ready.member
    have typed : node.Infers types.typeOf (goal place) := by
      apply (consistent place node found).congr
      intro source listed
      obtain ⟨input, placed⟩ := List.getElem?_of_mem listed
      have known := agree source.node
        (linked.feeders_listed ready ⟨input, source.slot, node, found, placed⟩)
      rw [TypeAssignment.typeOf, known, TypeAssignment.typeOf]
    have agreeAfter : ∀ id ∈ place :: done,
        Function.update types place (goal place) id = goal id := by
      intro id listed
      by_cases same : id = place
      · subst same
        rw [Function.update_self]
      · rw [Function.update_of_ne same]
        exact agree id ((List.mem_cons.mp listed).resolve_left same)
    obtain ⟨final, inferred, reached, kept⟩ := inductionHypothesis agreeAfter
    have once : place ∉ rest := fun again => listing.unlisted again List.mem_cons_self
    refine ⟨final, inferAlong_cons.mpr ⟨node, goal place, found, typed, inferred⟩, ?_, ?_⟩
    · intro id listed
      rcases List.mem_cons.mp listed with rfl | listed
      · rw [kept id once, Function.update_self]
      · exact reached id listed
    · intro id unlisted
      obtain ⟨apart, later⟩ := List.ne_and_not_mem_of_not_mem_cons unlisted
      rw [kept id later, Function.update_of_ne apart]

variable (linked : graph.Linked) (single : graph.Single) (acyclic : graph.Acyclic)

include linked single acyclic

/-- Types that follow from one another are found, at all live nodes. In particular a
graph has at most one consistent typing. -/
theorem inferAll_of_consistent {goal : TypeAssignment}
    (consistent : ∀ id, graph.Consistent goal id) :
    ∃ types, graph.inferAll = .ok types ∧
      ∀ id node, graph.node id = some node → types id = goal id := by
  have nothing : ∀ id ∈ ([] : List NodeId), (fun _ => []) id = goal id :=
    fun _ listed => absurd listed List.not_mem_nil
  obtain ⟨types, inferred, reached, _⟩ :=
    inferAlong_complete linked (linked.order_listing single) consistent nothing
  refine ⟨types, inferred, ?_⟩
  intro id node found
  exact reached id ((linked.mem_order_iff single acyclic).mpr ⟨node, found⟩)

/-- Inference in order finds the types that follow from one another, and fails if there are
none. -/
theorem inferAll_eq_ok_iff {types : TypeAssignment} : graph.inferAll = .ok types ↔
    (∀ id, graph.Consistent types id) ∧ ∀ id, graph.node id = none → types id = [] := by
  have sound (found : TypeAssignment) (inferred : graph.inferAll = .ok found) :
      (∀ id, graph.Consistent found id) ∧ ∀ id, graph.node id = none → found id = [] := by
    obtain ⟨consistent, kept⟩ := inferAlong_sound linked (linked.order_listing single) inferred
      (fun _ old => absurd old List.not_mem_nil) (fun _ old => absurd old List.not_mem_nil)
    constructor
    · intro id node live
      exact consistent id (Or.inr ((linked.mem_order_iff single acyclic).mpr ⟨node, live⟩)) node live
    · intro id empty
      refine kept id fun listed => ?_
      obtain ⟨node, live⟩ := (linked.mem_order_iff single acyclic).mp listed
      simp [empty] at live
  constructor
  · exact sound types
  · rintro ⟨consistent, absent⟩
    obtain ⟨found, inferred, reached⟩ :=
      inferAll_of_consistent linked single acyclic consistent
    have same : found = types := by
      funext id
      cases live : graph.node id with
      | none => rw [(sound found inferred).2 id live, absent id live]
      | some node => exact reached id node live
    rw [inferred, same]

end InferAlong

/-- Some of the given nodes feed the node, directly or through others, or it is one. -/
def Below (graph : Graph α) (seeds : List NodeId) (id : NodeId) : Prop :=
  ∃ seed ∈ seeds, ReflTransGen graph.Feeds seed id

/-- Changes at the given nodes reach every node on one way at most. -/
structure Treelike (graph : Graph α) (seeds : List NodeId) : Prop where
  starts : ∀ seed ∈ seeds, ∀ producer, graph.Feeds producer seed → ¬ graph.Below seeds producer
  joins : ∀ first second reader, graph.Feeds first reader → graph.Feeds second reader →
    graph.Below seeds first → graph.Below seeds second → first = second

section Treelike

variable [Arithmetic α] {graph : Graph α} {seeds : List NodeId} {goal : TypeAssignment}

/-- A visit of the node goes through once all is final that feeds the node or is not below
the given ones. It changes no types but those below the node. -/
def Visitable (graph : Graph α) (seeds : List NodeId) (goal : TypeAssignment) (id : NodeId) :
    Prop :=
  ∀ types : TypeAssignment, (∀ other, ¬ graph.Below seeds other → types other = goal other) →
    (∀ producer, graph.Feeds producer id → types producer = goal producer) →
      ∃ final, graph.Propagates types [id] final ∧
        ∀ other, ¬ ReflTransGen graph.Feeds id other → final other = types other

/-- Visits in turn go through if each does and none of them changes what feeds
another. Nodes outside the region that a change reaches are settled from the
beginning. -/
theorem propagates_of_visitable {waiting : List NodeId}
    (visitable : ∀ id ∈ waiting, graph.Below seeds id ∧ graph.Visitable seeds goal id)
    {types : TypeAssignment} (settled : ∀ other, ¬ graph.Below seeds other →
      types other = goal other)
    (fed : ∀ id ∈ waiting, ∀ producer, graph.Feeds producer id →
      types producer = goal producer ∧ ∀ other ∈ waiting, ¬ ReflTransGen graph.Feeds other producer) :
    ∃ final, graph.Propagates types waiting final ∧
      ∀ other, (∀ id ∈ waiting, ¬ ReflTransGen graph.Feeds id other) →
        final other = types other := by
  induction waiting generalizing types with
  | nil => exact ⟨types, .done types, fun _ _ => rfl⟩
  | cons id rest inductionHypothesis =>
    obtain ⟨⟨seed, seeded, path⟩, visit⟩ := visitable id List.mem_cons_self
    obtain ⟨middle, first, keptFirst⟩ := visit types settled fun producer feeds =>
      (fed id List.mem_cons_self producer feeds).1
    have settledMiddle (other : NodeId) (above : ¬ graph.Below seeds other) :
        middle other = goal other := by
      rw [keptFirst other fun later => above ⟨seed, seeded, path.trans later⟩]
      exact settled other above
    obtain ⟨final, others, keptOthers⟩ := inductionHypothesis
      (fun other listed => visitable other (List.mem_cons_of_mem id listed)) settledMiddle
      (by
        intro other listed producer feeds
        obtain ⟨known, apart⟩ := fed other (List.mem_cons_of_mem id listed) producer feeds
        rw [keptFirst producer (apart id List.mem_cons_self)]
        exact ⟨known, fun later member => apart later (List.mem_cons_of_mem id member)⟩)
    refine ⟨final, propagates_append_iff.mpr ⟨middle, first, others⟩, ?_⟩
    intro other apart
    rw [keptOthers other fun later member => apart later (List.mem_cons_of_mem id member),
      keptFirst other (apart id List.mem_cons_self)]

/-- Where changes reach every node on one way at most, a visited node finds everything
final that feeds it, and so do the readers it has visited. -/
theorem Treelike.visitable (treelike : graph.Treelike seeds) (linked : graph.Linked)
    (acyclic : graph.Acyclic) (consistent : ∀ id, graph.Consistent goal id) {id : NodeId}
    (below : graph.Below seeds id) {node : Node α} (found : graph.node id = some node) :
    graph.Visitable seeds goal id := by
  -- By induction on what lies ahead: the readers of a node are visitable when it is.
  induction id using (acyclic.wellFounded_swap linked).induction generalizing node with
  | _ id inductionHypothesis =>
    intro types settled fed
    have typed : node.Infers types.typeOf (goal id) := by
      apply (consistent id node found).congr
      intro source listed
      obtain ⟨input, placed⟩ := List.getElem?_of_mem listed
      rw [TypeAssignment.typeOf, fed source.node ⟨input, source.slot, node, found, placed⟩,
        TypeAssignment.typeOf]
    by_cases stays : goal id = types id
    · exact ⟨types, .same found (stays ▸ typed) (.done types), fun _ _ => rfl⟩
    · obtain ⟨seed, seeded, path⟩ := below
      have reads {reader : NodeId} (listed : reader ∈ (graph.readers id).reverse) :
          graph.Feeds id reader := linked.mem_readers_iff.mp (List.mem_reverse.mp listed)
      have elsewhere {other : NodeId} (apart : ¬ ReflTransGen graph.Feeds id other) :
          Function.update types id (goal id) other = types other := by
        apply Function.update_of_ne
        rintro rfl
        exact apart ReflTransGen.refl
      have visits : ∀ reader ∈ (graph.readers id).reverse,
          graph.Below seeds reader ∧ graph.Visitable seeds goal reader := by
        intro reader listed
        obtain ⟨input, slot, readerNode, foundReader, placed⟩ := reads listed
        have feeds : graph.Feeds id reader := ⟨input, slot, readerNode, foundReader, placed⟩
        have belowReader : graph.Below seeds reader := ⟨seed, seeded, path.tail feeds⟩
        exact ⟨belowReader, inductionHypothesis reader feeds belowReader foundReader⟩
      have settledAfter : ∀ other, ¬ graph.Below seeds other →
          Function.update types id (goal id) other = goal other := by
        intro other above
        rw [elsewhere fun later => above ⟨seed, seeded, path.trans later⟩]
        exact settled other above
      -- A reader is fed by this node and else from above: two feeders from below would join.
      have fedAfter : ∀ reader ∈ (graph.readers id).reverse, ∀ producer,
          graph.Feeds producer reader →
            Function.update types id (goal id) producer = goal producer ∧
              ∀ other ∈ (graph.readers id).reverse, ¬ ReflTransGen graph.Feeds other producer := by
        intro reader listed producer feeds
        by_cases same : producer = id
        · subst same
          refine ⟨Function.update_self .., ?_⟩
          intro other listedOther back
          exact acyclic producer (TransGen.head' (reads listedOther) back)
        · have above : ¬ graph.Below seeds producer := by
            intro belowProducer
            exact same (treelike.joins producer id reader feeds (reads listed) belowProducer
              ⟨seed, seeded, path⟩)
          rw [Function.update_of_ne same]
          refine ⟨settled producer above, ?_⟩
          intro other listedOther later
          exact above ⟨seed, seeded, (path.tail (reads listedOther)).trans later⟩
      obtain ⟨final, readers, kept⟩ := propagates_of_visitable visits settledAfter fedAfter
      refine ⟨final, .changed found typed stays readers (.done final), ?_⟩
      intro other apart
      rw [kept other fun reader listed later => apart (ReflTransGen.head (reads listed) later),
        elsewhere apart]

/-- Where changes reach every node on one way at most, they propagate if there are types
that follow from one another. -/
theorem Treelike.propagates (treelike : graph.Treelike seeds) (linked : graph.Linked)
    (acyclic : graph.Acyclic) (consistent : ∀ id, graph.Consistent goal id)
    (live : ∀ seed ∈ seeds, ∃ node, graph.node seed = some node) {types : TypeAssignment}
    (settled : ∀ other, ¬ graph.Below seeds other → types other = goal other) :
    ∃ final, graph.Propagates types seeds.reverse final := by
  have visits : ∀ seed ∈ seeds.reverse,
      graph.Below seeds seed ∧ graph.Visitable seeds goal seed := by
    intro seed listed
    have seeded := List.mem_reverse.mp listed
    obtain ⟨node, found⟩ := live seed seeded
    have below : graph.Below seeds seed := ⟨seed, seeded, ReflTransGen.refl⟩
    exact ⟨below, treelike.visitable linked acyclic consistent below found⟩
  have fed : ∀ seed ∈ seeds.reverse, ∀ producer, graph.Feeds producer seed →
      types producer = goal producer ∧
        ∀ other ∈ seeds.reverse, ¬ ReflTransGen graph.Feeds other producer := by
    intro seed listed producer feeds
    have above := treelike.starts seed (List.mem_reverse.mp listed) producer feeds
    refine ⟨settled producer above, ?_⟩
    intro other listedOther later
    exact above ⟨other, List.mem_reverse.mp listedOther, later⟩
  obtain ⟨final, propagates, _⟩ := propagates_of_visitable visits settled fed
  exact ⟨final, propagates⟩

end Treelike

end Graph

end RangeFold
