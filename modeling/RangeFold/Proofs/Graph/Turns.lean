import RangeFold.Proofs.Graph.Retyping

/-!
# Retyping turn by turn

The loop of a retyping without its budget: a turn takes the node on top of the stack, types it
from what is known and puts its readers on top of the rest if its types change. The loop has
ended when the stack is empty or a turn fails.

A node may come up again and again, its types may change and change back, and the stack may
grow. What goes down with every turn is the price of the stack. Every node costs its own visit
and the visits to all its readers, which is a finite price where no node has itself ahead. So
the loop ends, and within the budget of the retyping, which therefore never runs out.

A turn fails in two ways only. The node is not there, which can be so of the nodes one began
with and of no others; or its rule refuses the types that are known of its inputs.
-/

namespace RangeFold

variable {α : Type}

/-- The rule of the node refuses the types that an assignment gives to the values it reads. -/
def Node.Refuses [Arithmetic α] (node : Node α) (types : OutputRef → Option TensorType)
    (failure : Failure) : Prop :=
  ∃ inputs, node.inputs.map types = inputs.map some ∧
    inferOutputs node.kind node.name inputs node.attributes = .error failure

namespace TypeDraft

/-- In a graph whose edges are in order something is known of every value that a
node reads. A turn cannot fail for a missing input. -/
theorem exists_inputTypes {graph : Graph α} {draft : TypeDraft} (linked : graph.Linked)
    (sized : graph.Sized (draft.typesAt graph)) {id : NodeId} {node : Node α}
    (live : graph.node id = some node) :
    ∃ inputs : List TensorType,
      inputs.map some = node.inputs.map (draft.typesAt graph).typeOf := by
  change _ ∈ Set.range (List.map some)
  rw [Set.range_list_map]
  simp only [Set.mem_ofPred_eq, List.mem_map, forall_exists_index, and_imp,
    forall_apply_eq_imp_iff₂]
  intro source listed
  obtain ⟨input, placed⟩ := List.getElem?_of_mem listed
  obtain ⟨slot, produced⟩ := linked.produced ⟨id, input⟩ source ⟨node, live, placed⟩
  have stored : (graph.storedTypes.typeOf source).isSome = true := by
    rw [Graph.typeOf_storedTypes, Graph.outputType_eq_map, produced, Option.map_some]
    rfl
  refine (Option.isSome_iff_exists.mp ?_).imp fun type known => known.symm
  simpa [TypeAssignment.typeOf, sized source.node] using stored

section Turns

variable [Arithmetic α]

/-- One turn: the node is typed from what is known. Answers with the stack and the draft. -/
def turn (graph : Graph α) (draft : TypeDraft) (id : NodeId) (waiting : List NodeId) :
    Except Failure (List NodeId × TypeDraft) := do
  let node ← graph.nodeAt id
  let types ← draft.infer graph node
  .ok <|
    if (((draft.lookup id).getD node.outputTypes).zip types).any fun (old, new) => old ≠ new then
      ((node.consumers.map Consumer.node).reverse ++ waiting, draft.enter id types)
    else if (draft.lookup id).isNone then (waiting, draft.enter id types)
    else (waiting, draft)

/-- The loop ends after a number of turns: with the draft at hand when the stack is empty, or
with the failure of its last turn. -/
inductive Ends (graph : Graph α) :
    List NodeId → TypeDraft → Nat → Except Failure TypeDraft → Prop where
  | empty (draft : TypeDraft) : Ends graph [] draft 0 (.ok draft)
  | failed {id : NodeId} {waiting : List NodeId} {draft : TypeDraft} {failure : Failure}
      (stops : turn graph draft id waiting = .error failure) :
      Ends graph (id :: waiting) draft 1 (.error failure)
  | next {id : NodeId} {waiting after : List NodeId} {draft known : TypeDraft} {turns : Nat}
      {outcome : Except Failure TypeDraft} (goes : turn graph draft id waiting = .ok (after, known))
      (rest : Ends graph after known turns outcome) :
      Ends graph (id :: waiting) draft (turns + 1) outcome

variable {graph : Graph α} {draft known : TypeDraft} {id : NodeId} {waiting after : List NodeId}

/-- There is one way for the loop to go. A turn is a function of the stack and the
draft. -/
theorem Ends.unique {turns others : Nat} {outcome other : Except Failure TypeDraft}
    (ends : Ends graph waiting draft turns outcome)
    (again : Ends graph waiting draft others other) : turns = others ∧ outcome = other := by
  induction ends generalizing others with
  | empty draft =>
    cases again
    exact ⟨rfl, rfl⟩
  | failed stops =>
    cases again with
    | failed stopsToo => exact ⟨rfl, congrArg _ (Except.error.inj (stops.symm.trans stopsToo))⟩
    | next goes rest => cases stops.symm.trans goes
  | next goes rest inductionHypothesis =>
    cases again with
    | failed stops => cases goes.symm.trans stops
    | next goesToo restToo =>
      obtain ⟨rfl, rfl⟩ := Prod.mk.inj (Except.ok.inj (goes.symm.trans goesToo))
      obtain ⟨rfl, same⟩ := inductionHypothesis restToo
      exact ⟨rfl, same⟩

/-- With something left of its budget, a retyping takes a turn. The budget is all
that distinguishes it from the loop. -/
theorem settle_succ (budget : Nat) : settle graph (budget + 1) (id :: waiting) draft =
    turn graph draft id waiting >>= fun (after, known) => settle graph budget after known := by
  cases found : graph.nodeAt id with
  | error failure => simp only [settle, turn, found, Attempt.error_bind]
  | ok node =>
    cases typed : draft.infer graph node with
    | error failure => simp only [settle, turn, found, typed, Attempt.ok_bind, Attempt.error_bind]
    | ok types =>
      simp only [settle, turn, found, typed, Attempt.ok_bind]
      split
      · rfl
      · split <;> rfl

/-- A budget that lasts until the loop ends makes no difference. The bounded loop
and the unbounded one then agree. -/
theorem settle_of_ends {turns budget : Nat} {outcome : Except Failure TypeDraft}
    (ends : Ends graph waiting draft turns outcome) (enough : turns ≤ budget) :
    settle graph budget waiting draft = outcome := by
  induction ends generalizing budget with
  | empty draft => rw [settle]
  | failed stops =>
    obtain ⟨left, rfl⟩ : ∃ left, budget = left + 1 := ⟨budget - 1, by omega⟩
    rw [settle_succ, stops, Attempt.error_bind]
  | next goes rest inductionHypothesis =>
    obtain ⟨left, rfl⟩ : ∃ left, budget = left + 1 := ⟨budget - 1, by omega⟩
    rw [settle_succ, goes, Attempt.ok_bind]
    exact inductionHypothesis (by omega)

/-- What a turn does: it drafts the types of a live node or leaves them, and stacks the readers
of the node or none. -/
theorem turn_eq_ok (goes : turn graph draft id waiting = .ok (after, known)) :
    ∃ node types, graph.node id = some node ∧ draft.infer graph node = .ok types ∧
      (after = (graph.readers id).reverse ++ waiting ∨ after = waiting) ∧
      (known = draft.enter id types ∨ known = draft) := by
  unfold turn at goes
  obtain ⟨node, found, inferring⟩ := Attempt.bind_eq_ok_iff.mp goes
  obtain ⟨types, typed, choice⟩ := Attempt.bind_eq_ok_iff.mp inferring
  have live := Graph.nodeAt_eq_ok_iff.mp found
  have choice := Except.ok.inj choice
  refine ⟨node, types, live, typed, ?_⟩
  rw [readers_of_node live]
  split at choice
  · obtain ⟨rfl, rfl⟩ := Prod.mk.inj choice
    exact ⟨.inl rfl, .inl rfl⟩
  · split at choice
    · obtain ⟨rfl, rfl⟩ := Prod.mk.inj choice
      exact ⟨.inr rfl, .inl rfl⟩
    · obtain ⟨rfl, rfl⟩ := Prod.mk.inj choice
      exact ⟨.inr rfl, .inr rfl⟩

/-- Why a turn fails: the node is not there or cannot be typed. In either case it
has entered nothing. -/
theorem turn_eq_error {failure : Failure} (stops : turn graph draft id waiting = .error failure) :
    (graph.node id = none ∧ failure = .deadNode id) ∨
      ∃ node, graph.node id = some node ∧ draft.infer graph node = .error failure := by
  unfold turn at stops
  rcases Attempt.bind_eq_error_iff.mp stops with missing | ⟨node, found, inferring⟩
  · exact .inl (Graph.nodeAt_eq_error_iff.mp missing)
  · refine .inr ⟨node, Graph.nodeAt_eq_ok_iff.mp found, ?_⟩
    exact (Attempt.bind_eq_error_iff.mp inferring).resolve_right fun ⟨_, _, answered⟩ => by
      cases answered

/-- A turn costs at least one, where every node pays for its visit and for its
readers. The readers that are stacked are paid for by the node that is taken off. -/
theorem turn_lighter {weight : NodeId → Nat}
    (pays : ∀ id, 1 + ((graph.readers id).map weight).sum ≤ weight id)
    (goes : turn graph draft id waiting = .ok (after, known)) :
    (after.map weight).sum < ((id :: waiting).map weight).sum := by
  have price := pays id
  obtain ⟨-, -, -, -, rfl | rfl, -⟩ := turn_eq_ok goes
  · rw [List.map_append, List.sum_append, List.map_reverse, List.sum_reverse, List.map_cons,
      List.sum_cons]
    omega
  · rw [List.map_cons, List.sum_cons]
    omega

/-- So the loop ends, after as many turns at most as the stack weighs. The weight of
the stack falls with every turn. -/
theorem exists_ends {weight : NodeId → Nat}
    (pays : ∀ id, 1 + ((graph.readers id).map weight).sum ≤ weight id) (waiting : List NodeId)
    (draft : TypeDraft) :
    ∃ turns outcome, turns ≤ (waiting.map weight).sum ∧ Ends graph waiting draft turns outcome := by
  -- neither the stack nor the draft tells how far the loop has got, only the price of the stack
  induction total : (waiting.map weight).sum using Nat.strongRec generalizing waiting draft with
  | ind total inductionHypothesis =>
    subst total
    cases waiting with
    | nil => exact ⟨0, _, le_rfl, .empty draft⟩
    | cons id waiting =>
      have price := pays id
      cases taken : turn graph draft id waiting with
      | error failure =>
        refine ⟨1, _, ?_, .failed taken⟩
        rw [List.map_cons, List.sum_cons]
        omega
      | ok state =>
        obtain ⟨after, known⟩ := state
        have lighter := turn_lighter pays taken
        obtain ⟨turns, outcome, bounded, ends⟩ := inductionHypothesis _ lighter after known rfl
        exact ⟨turns + 1, outcome, by omega, .next taken ends⟩

/-- As many types are known of every node as it has outputs, and remain so. It is an
invariant of the loop. -/
theorem sized_of_turn (sized : graph.Sized (draft.typesAt graph))
    (goes : turn graph draft id waiting = .ok (after, known)) :
    graph.Sized (known.typesAt graph) := by
  obtain ⟨node, types, live, typed, -, rfl | rfl⟩ := turn_eq_ok goes
  · rw [typesAt_enter]
    exact sized.update live ((infer_eq_ok_iff sized).mp typed).2
  · exact sized

/-- A node that cannot be typed where something is known of all its inputs is refused by its rule,
which yields one type where it accepts. -/
theorem refuses_of_infer (linked : graph.Linked) (single : graph.Single)
    (sized : graph.Sized (draft.typesAt graph)) {node : Node α} (live : graph.node id = some node)
    {failure : Failure} (refused : draft.infer graph node = .error failure) :
    node.Refuses (draft.typesAt graph).typeOf failure := by
  obtain ⟨inputs, known⟩ := exists_inputTypes linked sized live
  have read := (inputTypes_eq_ok_iff sized).mpr known.symm
  cases typed : inferOutputs node.kind node.name inputs node.attributes with
  | ok types =>
    have counted := (inferOutputs_length typed).trans (single id node live).symm
    have inferred := (infer_eq_ok_iff sized).mpr ⟨⟨inputs, known.symm, typed⟩, counted⟩
    cases refused.symm.trans inferred
  | error other =>
    have stopped : draft.infer graph node = .error other := by
      rw [infer, read, Attempt.ok_bind, typed, Attempt.error_bind]
    obtain rfl : other = failure := Except.error.inj (stopped.symm.trans refused)
    exact ⟨inputs, known.symm, typed⟩

/-- If the loop ends with a failure, one of the nodes it began with is not there, or the rule of
some node refuses the types that are known of its inputs by then. -/
theorem Ends.blamed (linked : graph.Linked) (single : graph.Single) {turns : Nat}
    {failure : Failure} (ends : Ends graph waiting draft turns (.error failure))
    (sized : graph.Sized (draft.typesAt graph)) :
    (∃ id ∈ waiting, graph.node id = none ∧ failure = .deadNode id) ∨
      ∃ id node types, graph.node id = some node ∧ node.Refuses types failure := by
  generalize result : (.error failure : Except Failure TypeDraft) = outcome at ends
  induction ends with
  | empty draft => cases result
  | @failed id waiting draft other stops =>
    obtain rfl := Except.error.inj result
    rcases turn_eq_error stops with ⟨dead, same⟩ | ⟨node, live, refused⟩
    · exact .inl ⟨id, List.mem_cons_self, dead, same⟩
    · exact .inr ⟨id, node, _, live, refuses_of_infer linked single sized live refused⟩
  | @next id waiting after draft known turns outcome goes rest inductionHypothesis =>
    obtain ⟨-, -, -, -, stacked, -⟩ := turn_eq_ok goes
    refine (inductionHypothesis (sized_of_turn sized goes) result).imp_left ?_
    rintro ⟨dead, waits, absent, same⟩
    refine ⟨dead, List.mem_cons_of_mem id ?_, absent, same⟩
    rcases stacked with rfl | rfl
    · refine (List.mem_append.mp waits).resolve_left fun reads => ?_
      -- a reader that a turn stacks is live
      obtain ⟨_, _, node, live, _⟩ := linked.mem_readers_iff.mp (List.mem_reverse.mp reads)
      cases absent.symm.trans live
    · exact waits

end Turns

end TypeDraft

end RangeFold
