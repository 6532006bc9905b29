import RangeFold.Proofs.Graph.Acyclic
import Mathlib.Logic.Function.Basic

/-!
# Propagation of types

What retyping computes, said without a stack and without a budget: a node is typed from
what is known, and if its types change, the change is carried through all its readers,
last one first, before anything else is looked at. Retyping succeeds exactly if such a
propagation exists, and then stores its outcome.

A propagation leaves no node behind whose types do not follow from those of its inputs,
if there was none before except the ones it was asked to visit.
-/

namespace RangeFold

variable {α : Type}

/-- Output types by node. -/
abbrev TypeAssignment := NodeId → List TensorType

/-- The type that an assignment gives to a value. -/
def TypeAssignment.typeOf (types : TypeAssignment) (source : OutputRef) : Option TensorType :=
  (types source.node)[source.slot]?

namespace Graph

/-- The types that a graph stores. An empty place has none. -/
def storedTypes (graph : Graph α) : TypeAssignment := fun id =>
  match graph.node id with
  | some node => node.outputTypes
  | none => []

/-- An assignment gives every node as many types as it has outputs. -/
def Sized (graph : Graph α) (types : TypeAssignment) : Prop :=
  ∀ id, (types id).length = (graph.storedTypes id).length

/-- The types that an assignment gives to a node follow from those of its inputs. -/
def Consistent [Arithmetic α] (graph : Graph α) (types : TypeAssignment) (id : NodeId) : Prop :=
  ∀ node, graph.node id = some node → node.Infers types.typeOf (types id)

/-- Visit nodes in turn. A node whose types stay is done with; one whose types change has
its readers visited, the last one first, before the next node. -/
inductive Propagates [Arithmetic α] (graph : Graph α) :
    TypeAssignment → List NodeId → TypeAssignment → Prop where
  | done (types : TypeAssignment) : Propagates graph types [] types
  | same {types final : TypeAssignment} {id : NodeId} {node : Node α} {waiting : List NodeId}
      (live : graph.node id = some node) (typed : node.Infers types.typeOf (types id))
      (rest : Propagates graph types waiting final) : Propagates graph types (id :: waiting) final
  | changed {types middle final : TypeAssignment} {id : NodeId} {node : Node α}
      {waiting : List NodeId} {new : List TensorType} (live : graph.node id = some node)
      (typed : node.Infers types.typeOf new) (other : new ≠ types id)
      (readers : Propagates graph (Function.update types id new) (graph.readers id).reverse middle)
      (rest : Propagates graph middle waiting final) : Propagates graph types (id :: waiting) final

/-- The stored types of a live node are those of its outputs. -/
theorem storedTypes_of_node {graph : Graph α} {id : NodeId} {node : Node α}
    (found : graph.node id = some node) : graph.storedTypes id = node.outputTypes := by
  simp [storedTypes, found]

/-- The stored types are those by which the values of a graph are typed. Propagation
and inference speak of assignments; the graph itself is the first of them. -/
theorem typeOf_storedTypes (graph : Graph α) : graph.storedTypes.typeOf = graph.outputType := by
  funext source
  cases found : graph.node source.node with
  | none => simp [TypeAssignment.typeOf, storedTypes, outputType, found]
  | some node =>
    simp [TypeAssignment.typeOf, storedTypes, outputType, found, Node.outputTypes, Node.outputType]

/-- As many new types as there were before. Every value then still has one type. -/
theorem Sized.update {graph : Graph α} {types : TypeAssignment} (sized : graph.Sized types)
    {id : NodeId} {node : Node α} (found : graph.node id = some node) {new : List TensorType}
    (counted : new.length = node.outputs.length) : graph.Sized (Function.update types id new) := by
  intro other
  by_cases same : other = id
  · subst same
    rw [Function.update_self, storedTypes_of_node found, counted, Node.outputTypes,
      List.length_map]
  · rw [Function.update_of_ne same]
    exact sized other

section Propagates

variable [Arithmetic α] {graph : Graph α}

/-- Stored types are fresh if they are consistent everywhere. Freshness speaks of
the graph, consistency of an assignment for it. -/
theorem fresh_iff_consistent : graph.Fresh ↔ ∀ id, graph.Consistent graph.storedTypes id := by
  constructor
  · intro fresh id node found
    rw [typeOf_storedTypes, storedTypes_of_node found]
    exact fresh id node found
  · intro consistent id node found
    have infers := consistent id node found
    rwa [typeOf_storedTypes, storedTypes_of_node found] at infers

/-- Propagating from two lists in turn is propagating from both. The split may fall
anywhere, so propagations can be compared step by step. -/
theorem propagates_append_iff {types final : TypeAssignment} {first second : List NodeId} :
    graph.Propagates types (first ++ second) final ↔
      ∃ middle, graph.Propagates types first middle ∧ graph.Propagates middle second final := by
  constructor
  · intro whole
    induction first generalizing types with
    | nil => exact ⟨types, .done types, whole⟩
    | cons id rest inductionHypothesis =>
      cases whole with
      | same live typed tail =>
        obtain ⟨middle, before, after⟩ := inductionHypothesis tail
        exact ⟨middle, .same live typed before, after⟩
      | changed live typed other readers tail =>
        obtain ⟨middle, before, after⟩ := inductionHypothesis tail
        exact ⟨middle, .changed live typed other readers before, after⟩
  · rintro ⟨middle, before, after⟩
    induction before with
    | done types => exact after
    | same live typed _ inductionHypothesis => exact .same live typed (inductionHypothesis after)
    | changed live typed other readers _ _ inductionHypothesis =>
      exact .changed live typed other readers (inductionHypothesis after)

/-- New types of one node do not touch the nodes that do not read it. Only the node
itself and its readers have to be looked at again. -/
theorem Consistent.update {types : TypeAssignment} {id reader : NodeId} {new : List TensorType}
    (consistent : graph.Consistent types reader) (distinct : reader ≠ id)
    (apart : ¬ graph.Feeds id reader) : graph.Consistent (Function.update types id new) reader := by
  intro node found
  rw [Function.update_of_ne distinct]
  apply (consistent node found).congr
  intro source listed
  have other : source.node ≠ id := by
    rintro rfl
    obtain ⟨input, placed⟩ := List.getElem?_of_mem listed
    exact apart ⟨input, source.slot, node, found, placed⟩
  rw [TypeAssignment.typeOf, TypeAssignment.typeOf, Function.update_of_ne other]

/-- A propagation settles every node it visits: afterwards only those are possibly
inconsistent that were so before and were not to be visited. -/
theorem Propagates.consistent (linked : graph.Linked) {types final : TypeAssignment}
    {waiting : List NodeId} (propagates : graph.Propagates types waiting final)
    {others : NodeId → Prop}
    (consistent : ∀ id, id ∈ waiting ∨ others id ∨ graph.Consistent types id) :
    ∀ id, others id ∨ graph.Consistent final id := by
  induction propagates generalizing others with
  | done types =>
    intro id
    exact (consistent id).resolve_left List.not_mem_nil
  | @same types final id node waiting live typed _ inductionHypothesis =>
    apply inductionHypothesis
    intro place
    rcases consistent place with waits | settled
    · rcases List.mem_cons.mp waits with rfl | waits
      · refine Or.inr (Or.inr ?_)
        intro found same
        obtain rfl : node = found := Option.some.inj (live.symm.trans same)
        exact typed
      · exact Or.inl waits
    · exact Or.inr settled
  | @changed types middle final id node waiting new live typed other _ _ settleReaders
      settleRest =>
    -- While the readers are visited, the rest of the stack counts among the others.
    have afterReaders := @settleReaders (fun place => place ∈ waiting ∨ others place) (by
      intro place
      by_cases reads : graph.Feeds id place
      · exact Or.inl (List.mem_reverse.mpr (linked.mem_readers_iff.mpr reads))
      · by_cases same : place = id
        · subst same
          refine Or.inr (Or.inr ?_)
          intro found again
          obtain rfl : node = found := Option.some.inj (live.symm.trans again)
          rw [Function.update_self]
          apply typed.congr
          intro source listed
          have elsewhere : source.node ≠ place := by
            rintro rfl
            obtain ⟨input, placed⟩ := List.getElem?_of_mem listed
            exact reads ⟨input, source.slot, node, live, placed⟩
          rw [TypeAssignment.typeOf, TypeAssignment.typeOf, Function.update_of_ne elsewhere]
        · rcases consistent place with waits | pending | settled
          · exact Or.inr (Or.inl (Or.inl ((List.mem_cons.mp waits).resolve_left same)))
          · exact Or.inr (Or.inl (Or.inr pending))
          · exact Or.inr (Or.inr (settled.update same reads)))
    apply settleRest
    intro place
    exact or_assoc.mp (afterReaders place)

/-- A propagation from all inconsistent nodes leaves none. Consistency of what is
not waiting is the invariant: a change puts the readers on the stack. -/
theorem Propagates.consistent_all (linked : graph.Linked) {types final : TypeAssignment}
    {waiting : List NodeId} (propagates : graph.Propagates types waiting final)
    (consistent : ∀ id, id ∉ waiting → graph.Consistent types id) (id : NodeId) :
    graph.Consistent final id := by
  have settled := @Propagates.consistent α _ graph linked types final waiting propagates
    (fun _ => False) (by
      intro place
      by_cases waits : place ∈ waiting
      · exact Or.inl waits
      · exact Or.inr (Or.inr (consistent place waits)))
  exact (settled id).resolve_left not_false

/-- Where everything is consistent a propagation changes nothing. Every visit finds
the types that are there. -/
theorem Propagates.eq_of_consistent {types final : TypeAssignment} {waiting : List NodeId}
    (propagates : graph.Propagates types waiting final)
    (consistent : ∀ id, graph.Consistent types id) : final = types := by
  induction propagates with
  | done types => rfl
  | same _ _ _ inductionHypothesis => exact inductionHypothesis consistent
  | changed live typed other _ _ _ _ =>
    exact absurd (typed.unique (consistent _ _ live)) other

/-- Every rule yields one type, so a propagation does not change how many types nodes of
one output have. -/
theorem Propagates.sized (single : graph.Single) {types final : TypeAssignment}
    {waiting : List NodeId} (propagates : graph.Propagates types waiting final)
    (sized : graph.Sized types) : graph.Sized final := by
  induction propagates with
  | done types => exact sized
  | same _ _ _ inductionHypothesis => exact inductionHypothesis sized
  | changed live typed _ _ _ sizedReaders sizedRest =>
    have counted := typed.length.trans (single _ _ live).symm
    exact sizedRest (sizedReaders (sized.update live counted))

end Propagates

end Graph

end RangeFold
