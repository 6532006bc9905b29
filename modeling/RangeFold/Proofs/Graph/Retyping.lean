import RangeFold.Proofs.Graph.Propagation
import Mathlib.Algebra.Order.BigOperators.Group.List
import Mathlib.Algebra.Order.Ring.Nat
import Mathlib.Tactic.Ring

/-!
# Retyping is propagation

The draft that retyping fills in stands for an assignment: the drafted types of a node
if there are any, otherwise its stored ones. Read this way, a run of the stack is a
propagation, and every propagation is such a run as long as the budget lasts. On an
acyclic graph it does: the visits that a node can cause are bounded by a power of the
number of edges, whose exponent is the number of nodes that lie ahead.
-/

namespace RangeFold

variable {α : Type}

namespace TypeDraft

/-- The assignment that a draft stands for. -/
def typesAt (draft : TypeDraft) (graph : Graph α) : TypeAssignment := fun id =>
  (draft.lookup id).getD (graph.storedTypes id)

/-- Dropping an entry from a draft changes the lookup at that id alone. -/
theorem lookup_filter_ne (draft : TypeDraft) (id other : NodeId) :
    (draft.filter fun (key, _) => key ≠ id).lookup other =
      if other = id then none else draft.lookup other := by
  induction draft with
  | nil => simp
  | cons entry rest inductionHypothesis =>
    obtain ⟨key, types⟩ := entry
    by_cases struck : key = id
    · have shorter : (((key, types) :: rest).filter fun (key, _) => key ≠ id) =
          rest.filter fun (key, _) => key ≠ id := by simp [struck]
      rw [shorter, inductionHypothesis]
      by_cases asked : other = id
      · simp [asked]
      · simp [asked, List.lookup_cons, beq_false_of_ne (struck ▸ asked : other ≠ key)]
    · have kept : (((key, types) :: rest).filter fun (key, _) => key ≠ id) =
          (key, types) :: rest.filter fun (key, _) => key ≠ id := by simp [struck]
      rw [kept, List.lookup_cons, List.lookup_cons, inductionHypothesis]
      by_cases same : other = key
      · simp [same, struck]
      · rw [beq_false_of_ne same]

/-- Entering types into a draft answers them at their id and leaves the rest,
however often the id had been entered before. -/
theorem lookup_enter (draft : TypeDraft) (id other : NodeId) (types : List TensorType) :
    (draft.enter id types).lookup other = if other = id then some types else draft.lookup other := by
  rw [enter, List.lookup_cons, lookup_filter_ne]
  by_cases same : other = id
  · simp [same]
  · simp [same, beq_false_of_ne same]

/-- Entering types changes the assignment at one node. A draft is an assignment with
finitely many nodes written down. -/
theorem typesAt_enter (draft : TypeDraft) (graph : Graph α) (id : NodeId)
    (types : List TensorType) :
    (draft.enter id types).typesAt graph = Function.update (draft.typesAt graph) id types := by
  funext other
  by_cases same : other = id
  · subst same
    simp [typesAt, lookup_enter]
  · simp [typesAt, lookup_enter, same]

/-- An empty draft leaves the stored types in force. -/
theorem typesAt_nil (graph : Graph α) : typesAt [] graph = graph.storedTypes := rfl

/-- A draft lists each node once. -/
def Distinct (draft : TypeDraft) : Prop := (draft.map Prod.fst).Nodup

/-- The empty draft has no id twice. -/
theorem distinct_nil : Distinct [] := List.nodup_nil

/-- Entering keeps the ids of a draft distinct: the earlier entry is dropped first. -/
theorem Distinct.enter {draft : TypeDraft} (distinct : draft.Distinct) (id : NodeId)
    (types : List TensorType) : (draft.enter id types).Distinct := by
  refine List.nodup_cons.mpr ⟨?_, ?_⟩
  · simp [List.mem_filter]
  · exact distinct.sublist (List.filter_sublist.map Prod.fst)

section Known

variable {draft : TypeDraft} {graph : Graph α} (sized : graph.Sized (draft.typesAt graph))

include sized

/-- What is known of a value is its type under the assignment. Undrafted nodes
answer with what is stored. -/
theorem typeOf_eq : draft.typeOf graph = (draft.typesAt graph).typeOf := by
  funext source
  have stored := congrFun (Graph.typeOf_storedTypes graph) source
  have size := sized source.node
  unfold typeOf TypeAssignment.typeOf typesAt at *
  cases drafted : draft.lookup source.node with
  | none => simpa using stored.symm
  | some types =>
    simp only [drafted, Option.getD_some] at size
    simp only [Option.bind_some, Option.getD_some]
    by_cases inside : source.slot < types.length
    · simp [List.getElem?_eq_getElem inside]
    · have outside : types.length ≤ source.slot := Nat.le_of_not_lt inside
      simp [List.getElem?_eq_none outside, ← stored, List.getElem?_eq_none (size ▸ outside)]

/-- The types that a visit reads are those of the assignment. It fails only where an
input names no output. -/
theorem inputTypes_eq_ok_iff {node : Node α} {inputs : List TensorType} :
    draft.inputTypes graph node = .ok inputs ↔
      node.inputs.map (draft.typesAt graph).typeOf = inputs.map some := by
  rw [← typeOf_eq sized]
  apply mapM_eq_ok_iff
  intro source type
  cases draft.typeOf graph source <;> simp

/-- Inferring from a draft is inferring from the assignment. The number of types has
to stay the number of outputs, as every rule sees to. -/
theorem infer_eq_ok_iff [Arithmetic α] {node : Node α} {types : List TensorType} :
    draft.infer graph node = .ok types ↔
      node.Infers (draft.typesAt graph).typeOf types ∧ types.length = node.outputs.length := by
  constructor
  · intro inferred
    obtain ⟨inputs, read, inferred⟩ := Attempt.bind_eq_ok_iff.mp inferred
    obtain ⟨outputs, typed, inferred⟩ := Attempt.bind_eq_ok_iff.mp inferred
    by_cases counted : outputs.length = node.outputs.length
    · obtain rfl : outputs = types := by
        simpa [counted, pure, Except.pure] using inferred
      exact ⟨⟨inputs, (inputTypes_eq_ok_iff sized).mp read, typed⟩, counted⟩
    · simp only [ne_eq, counted, not_false_eq_true, if_true, Attempt.throw_bind] at inferred
      cases inferred
  · rintro ⟨⟨inputs, read, typed⟩, counted⟩
    have reading := (inputTypes_eq_ok_iff sized).mpr read
    simp [infer, reading, typed, counted, bind, Except.bind, pure, Except.pure]

end Known

/-- Lists of one length are equal if no pair of entries at one place differs. The
comparison that decides whether readers are visited is made in this way. -/
theorem zip_any_ne_eq_false_iff {β : Type} [DecidableEq β] {first second : List β}
    (sized : first.length = second.length) :
    ((first.zip second).any fun (old, new) => old ≠ new) = false ↔ second = first := by
  induction first generalizing second with
  | nil =>
    obtain rfl : second = [] := List.eq_nil_of_length_eq_zero sized.symm
    simp
  | cons old rest inductionHypothesis =>
    cases second with
    | nil => simp at sized
    | cons new others =>
      have tail := inductionHypothesis (Nat.succ.inj sized)
      have head : decide (old ≠ new) = false ↔ new = old := by
        rw [decide_eq_false_iff_not, Decidable.not_not]
        exact eq_comm
      rw [List.zip_cons_cons, List.any_cons, Bool.or_eq_false_iff, tail, List.cons.injEq, head]

/-- The draft has the types that a visit compares with. They are the drafted ones if
there are any and the stored ones if not. -/
theorem typesAt_of_node {graph : Graph α} {id : NodeId} {node : Node α}
    (found : graph.node id = some node) (draft : TypeDraft) :
    (draft.lookup id).getD node.outputTypes = draft.typesAt graph id := by
  rw [typesAt, Graph.storedTypes_of_node found]

section Settle

variable {graph : Graph α}

/-- A visit that changes nothing at most enters what was known already. The
assignment is the same, although the draft has grown. -/
theorem typesAt_enter_same {draft : TypeDraft} {id : NodeId} {types : List TensorType}
    (same : types = draft.typesAt graph id) :
    (draft.enter id types).typesAt graph = draft.typesAt graph := by
  rw [typesAt_enter, same, Function.update_eq_self]

/-- The readers of a live node are the nodes of its consumers. -/
theorem readers_of_node {id : NodeId} {node : Node α} (found : graph.node id = some node) :
    graph.readers id = node.consumers.map Consumer.node := by
  simp [Graph.readers, found]

/-- If no pair of old and new types differs, the types stay. The lists are equally
long, since inference keeps the number of outputs. -/
theorem types_of_stays {draft : TypeDraft} (sized : graph.Sized (draft.typesAt graph))
    {id : NodeId} {node : Node α} (live : graph.node id = some node) {types : List TensorType}
    (counted : types.length = node.outputs.length)
    (stays : ¬ (((draft.lookup id).getD node.outputTypes).zip types).any
      (fun (old, new) => old ≠ new) = true) : types = draft.typesAt graph id := by
  rw [typesAt_of_node live] at stays
  have length : (draft.typesAt graph id).length = types.length := by
    rw [sized id, Graph.storedTypes_of_node live, Node.outputTypes, List.length_map, counted]
  exact (zip_any_ne_eq_false_iff length).mp (Bool.eq_false_of_not_eq_true stays)

variable [Arithmetic α]

/-- A run of the stack that ends is a propagation, and its draft lists each node
once. By induction on the budget, each turn being one visit of the propagation. -/
theorem propagates_of_settle {budget : Nat} {waiting : List NodeId} {draft final : TypeDraft}
    (sized : graph.Sized (draft.typesAt graph)) (distinct : draft.Distinct)
    (settled : settle graph budget waiting draft = .ok final) :
    graph.Propagates (draft.typesAt graph) waiting (final.typesAt graph) ∧
      graph.Sized (final.typesAt graph) ∧ final.Distinct := by
  fun_induction settle graph budget waiting draft with
  | case1 budget draft =>
    obtain rfl : draft = final := Except.ok.inj settled
    exact ⟨.done _, sized, distinct⟩
  | case2 => simp at settled
  | case3 => simp at settled
  | case4 => simp at settled
  | case5 budget id waiting draft node found types typed current changes inductionHypothesis =>
    have live : graph.node id = some node := Graph.nodeAt_eq_ok_iff.mp found
    obtain ⟨infers, counted⟩ := (infer_eq_ok_iff sized).mp typed
    have entered := typesAt_enter draft graph id types
    obtain ⟨whole, sizedFinal, distinctFinal⟩ := inductionHypothesis
      (entered ▸ sized.update live counted) (distinct.enter id types) settled
    rw [entered] at whole
    obtain ⟨middle, readers, rest⟩ := Graph.propagates_append_iff.mp whole
    rw [← readers_of_node live] at readers
    have other : types ≠ draft.typesAt graph id := by
      intro same
      have still := (zip_any_ne_eq_false_iff (by rw [typesAt_of_node live, ← same])).mpr
        (same.trans (typesAt_of_node live draft).symm)
      exact Bool.false_ne_true (still.symm.trans changes)
    exact ⟨.changed live infers other readers rest, sizedFinal, distinctFinal⟩
  | case6 budget id waiting draft node found types typed current stays new inductionHypothesis =>
    have live : graph.node id = some node := Graph.nodeAt_eq_ok_iff.mp found
    obtain ⟨infers, counted⟩ := (infer_eq_ok_iff sized).mp typed
    have same := types_of_stays sized live counted stays
    rw [typesAt_enter_same same] at inductionHypothesis
    obtain ⟨rest, others⟩ := inductionHypothesis sized (distinct.enter id types) settled
    exact ⟨.same live (same ▸ infers) rest, others⟩
  | case7 budget id waiting draft node found types typed current stays old inductionHypothesis =>
    have live : graph.node id = some node := Graph.nodeAt_eq_ok_iff.mp found
    obtain ⟨infers, counted⟩ := (infer_eq_ok_iff sized).mp typed
    have same := types_of_stays sized live counted stays
    obtain ⟨rest, others⟩ := inductionHypothesis sized distinct settled
    exact ⟨.same live (same ▸ infers) rest, others⟩

/-- A visited node whose types stay is done with. The rest of the stack goes on with
the same assignment. -/
theorem settle_same (single : graph.Single) {draft : TypeDraft}
    (sized : graph.Sized (draft.typesAt graph)) {id : NodeId} {node : Node α}
    (live : graph.node id = some node)
    (typed : node.Infers (draft.typesAt graph).typeOf (draft.typesAt graph id)) (budget : Nat)
    (waiting : List NodeId) :
    ∃ next : TypeDraft, next.typesAt graph = draft.typesAt graph ∧
      settle graph (budget + 1) (id :: waiting) draft = settle graph budget waiting next := by
  have counted := typed.length.trans (single id node live).symm
  have current := (infer_eq_ok_iff sized).mpr ⟨typed, counted⟩
  have stays : ((draft.typesAt graph id).zip (draft.typesAt graph id)).any
      (fun (old, new) => old ≠ new) = false := (zip_any_ne_eq_false_iff rfl).mpr rfl
  by_cases new : (draft.lookup id).isNone
  · refine ⟨draft.enter id (draft.typesAt graph id), typesAt_enter_same rfl, ?_⟩
    simp only [settle, Graph.nodeAt_of_node live, current, typesAt_of_node live, stays,
      Bool.false_eq_true, if_false, new, if_true]
  · refine ⟨draft, rfl, ?_⟩
    simp only [settle, Graph.nodeAt_of_node live, current, typesAt_of_node live, stays,
      Bool.false_eq_true, if_false, new]

/-- A visited node whose types change is drafted, and its readers are stacked. They
come on top, so they are visited before the rest of the stack. -/
theorem settle_changed (single : graph.Single) {draft : TypeDraft}
    (sized : graph.Sized (draft.typesAt graph)) {id : NodeId} {node : Node α}
    (live : graph.node id = some node) {new : List TensorType}
    (typed : node.Infers (draft.typesAt graph).typeOf new) (other : new ≠ draft.typesAt graph id)
    (budget : Nat) (waiting : List NodeId) :
    settle graph (budget + 1) (id :: waiting) draft =
      settle graph budget ((graph.readers id).reverse ++ waiting) (draft.enter id new) := by
  have counted := typed.length.trans (single id node live).symm
  have inferred := (infer_eq_ok_iff sized).mpr ⟨typed, counted⟩
  have length : (draft.typesAt graph id).length = new.length := by
    rw [sized id, Graph.storedTypes_of_node live, Node.outputTypes, List.length_map, counted]
  have changes : ((draft.typesAt graph id).zip new).any (fun (old, new) => old ≠ new) = true := by
    apply Bool.eq_true_of_not_eq_false
    intro still
    exact other ((zip_any_ne_eq_false_iff length).mp still)
  simp only [settle, Graph.nodeAt_of_node live, inferred, typesAt_of_node live, changes, if_true,
    readers_of_node live]

/-- Where every node pays for its own visit and for those of its readers, a propagation
is followed to its end by a stack whose budget pays for the nodes it visits, whatever
waits below them. What is not spent is left. -/
theorem settle_of_propagates {weight : NodeId → Nat}
    (pays : ∀ id, 1 + ((graph.readers id).map weight).sum ≤ weight id)
    (single : graph.Single) {types final : TypeAssignment} {waiting : List NodeId}
    (propagates : graph.Propagates types waiting final) {draft : TypeDraft} {budget : Nat}
    {rest : List NodeId} (known : draft.typesAt graph = types) (sized : graph.Sized types)
    (enough : (waiting.map weight).sum ≤ budget) :
    ∃ after left, after.typesAt graph = final ∧ budget ≤ left + (waiting.map weight).sum ∧
      settle graph budget (waiting ++ rest) draft = settle graph left rest after := by
  induction propagates generalizing draft budget rest with
  | done types => exact ⟨draft, budget, known, by simp, rfl⟩
  | @same types final id node waiting live typed _ inductionHypothesis =>
    have price := pays id
    rw [List.map_cons, List.sum_cons] at enough ⊢
    obtain ⟨spent, rfl⟩ : ∃ spent, budget = spent + 1 := ⟨budget - 1, by omega⟩
    subst known
    obtain ⟨next, entered, visited⟩ := settle_same single sized live typed spent (waiting ++ rest)
    obtain ⟨after, left, reached, unspent, followed⟩ := inductionHypothesis entered sized
      (show (waiting.map weight).sum ≤ spent by omega)
    exact ⟨after, left, reached, by omega, visited.trans followed⟩
  | @changed types middle final id node waiting new live typed other readers _ settleReaders
      settleRest =>
    have price := pays id
    rw [List.map_cons, List.sum_cons] at enough ⊢
    obtain ⟨spent, rfl⟩ : ∃ spent, budget = spent + 1 := ⟨budget - 1, by omega⟩
    subst known
    have visited := settle_changed single sized live typed other spent (waiting ++ rest)
    have sizedNew := sized.update live (typed.length.trans (single id node live).symm)
    have owed : (((graph.readers id).reverse).map weight).sum =
        ((graph.readers id).map weight).sum := by
      rw [List.map_reverse, List.sum_reverse]
    obtain ⟨between, kept, reached, unspent, followed⟩ := @settleReaders _ _ (waiting ++ rest)
      (typesAt_enter draft graph id new) sizedNew
      (show (((graph.readers id).reverse).map weight).sum ≤ spent by omega)
    obtain ⟨after, left, reachedEnd, unspentEnd, followedEnd⟩ := @settleRest _ _ rest reached
      (readers.sized single sizedNew) (show (waiting.map weight).sum ≤ kept by omega)
    exact ⟨after, left, reachedEnd, by omega, visited.trans (followed.trans followedEnd)⟩

end Settle

/-- Storing a draft states at every node the types that the draft stands for.
Entries are written one by one; as no node has two, their order does not matter. -/
theorem write_eq {draft : TypeDraft} (distinct : draft.Distinct) (graph : Graph α) :
    draft.write graph = graph.mapNodes fun id => Node.retyped (draft.typesAt graph id) := by
  have written (target : Graph α) : draft.write target = target.mapNodes fun id node =>
      match draft.lookup id with
      | some types => node.retyped types
      | none => node := by
    induction draft generalizing target with
    | nil => exact (Graph.mapNodes_eq_self fun _ _ _ => rfl).symm
    | cons entry rest inductionHypothesis =>
      obtain ⟨key, types⟩ := entry
      obtain ⟨absent, distinctRest⟩ := List.nodup_cons.mp distinct
      have missing : rest.lookup key = none := by
        rw [List.lookup_eq_none_iff]
        rintro ⟨other, outputs⟩ member
        apply bne_iff_ne.mpr
        rintro rfl
        exact absent (List.mem_map.mpr ⟨_, member, rfl⟩)
      have first : write ((key, types) :: rest) target =
          write rest (target.modifyNode key (Node.retyped types)) := by
        have stated : Node.retyped types = fun node : Node α =>
            { node with outputs := (node.outputs.zipIdx).map fun entry =>
              { entry.1 with type := types.getD entry.2 entry.1.type } } := by
          funext node
          simp [Node.retyped, List.mapIdx_eq_zipIdx_map]
        rw [stated]
        rfl
      rw [first, inductionHypothesis distinctRest, Graph.modifyNode_eq_mapNodes,
        Graph.mapNodes_mapNodes]
      apply Graph.mapNodes_congr
      intro id node _
      by_cases same : id = key
      · subst same
        simp [missing]
      · simp only [if_neg same, List.lookup_cons, beq_false_of_ne same]
  rw [written]
  apply Graph.mapNodes_congr
  intro id node found
  cases drafted : draft.lookup id with
  | some types => simp [typesAt, drafted]
  | none => simp [typesAt, drafted, Graph.storedTypes_of_node found, Node.retyped_self]

end TypeDraft

namespace Graph

/-- State the types that an assignment gives to each node. -/
def retypedBy (graph : Graph α) (types : TypeAssignment) : Graph α :=
  graph.mapNodes fun id => Node.retyped (types id)

section RetypedBy

variable {graph : Graph α} {types : TypeAssignment}

/-- Writing the stored types back is the identity. -/
theorem retypedBy_storedTypes : graph.retypedBy graph.storedTypes = graph := by
  apply mapNodes_eq_self
  intro id node found
  rw [storedTypes_of_node found, Node.retyped_self]

/-- What is stated is what is stored. The assignment has to give every node as many
types as it has outputs. -/
theorem storedTypes_retypedBy (sized : graph.Sized types) :
    (graph.retypedBy types).storedTypes = types := by
  funext id
  have size := sized id
  cases found : graph.node id with
  | none =>
    simp only [storedTypes, found, List.length_nil] at size
    simp [storedTypes, retypedBy, found, List.eq_nil_of_length_eq_zero size]
  | some node =>
    rw [storedTypes_of_node found, Node.outputTypes, List.length_map] at size
    simp [storedTypes, retypedBy, found, Node.retyped_outputTypes (types id) node size]

/-- New types leave what the nodes read. -/
@[simp] theorem reads_retypedBy {consumer : Consumer} {source : OutputRef} :
    (graph.retypedBy types).Reads consumer source ↔ graph.Reads consumer source := by
  simp only [Reads, retypedBy, exists_node_mapNodes, Node.retyped_inputs]

/-- New types leave the edges. -/
theorem feeds_retypedBy {producer reader : NodeId} :
    (graph.retypedBy types).Feeds producer reader ↔ graph.Feeds producer reader := by
  simp only [Feeds, reads_retypedBy]

/-- New types are seen slot by slot; an output the assignment says nothing about
keeps its own, and the readers stay. -/
theorem outputSlot_retypedBy (source : OutputRef) : (graph.retypedBy types).outputSlot source =
    (graph.outputSlot source).map fun slot =>
      { slot with type := (types source.node).getD source.slot slot.type } := by
  simp only [outputSlot, retypedBy, node_mapNodes]
  cases graph.node source.node with
  | none => rfl
  | some node => exact node.retyped_output (types source.node) source.slot

/-- New types leave the names and the interface. -/
theorem Indexed.retypedBy (indexed : graph.Indexed) (types : TypeAssignment) :
    (graph.retypedBy types).Indexed :=
  indexed.mapNodes (fun _ _ => rfl) fun _ _ => rfl

/-- Types do not touch edges. Both ends of each edge stay where they are. -/
theorem Linked.retypedBy (linked : graph.Linked) (types : TypeAssignment) :
    (graph.retypedBy types).Linked where
  produced consumer source reads := by
    obtain ⟨slot, found⟩ := linked.produced consumer source (reads_retypedBy.mp reads)
    exact ⟨_, by rw [outputSlot_retypedBy, found]; rfl⟩
  once source slot found := by
    rw [outputSlot_retypedBy] at found
    obtain ⟨old, foundOld, rfl⟩ := Option.map_eq_some_iff.mp found
    exact linked.once source old foundOld
  listed source slot found consumer := by
    rw [outputSlot_retypedBy] at found
    obtain ⟨old, foundOld, rfl⟩ := Option.map_eq_some_iff.mp found
    rw [reads_retypedBy]
    exact linked.listed source old foundOld consumer

/-- New types leave the edges, and with them acyclicity. -/
theorem Acyclic.retypedBy (acyclic : graph.Acyclic) (types : TypeAssignment) :
    (graph.retypedBy types).Acyclic :=
  acyclic.of_feeds fun _ _ => feeds_retypedBy.mp

/-- Consistent types, once stored, are fresh. That is how a successful retyping
restores the invariant. -/
theorem fresh_retypedBy [Arithmetic α] (sized : graph.Sized types)
    (consistent : ∀ id, graph.Consistent types id) : (graph.retypedBy types).Fresh := by
  rw [fresh_iff_consistent, storedTypes_retypedBy sized]
  intro id node found
  obtain ⟨old, foundOld, rfl⟩ : ∃ old, graph.node id = some old ∧ old.retyped (types id) = node := by
    simpa [Graph.retypedBy] using found
  exact consistent id old foundOld

end RetypedBy

/-- No node has more readers than there are edges. The cost of a visit is bounded by
it. -/
theorem readers_length_le (graph : Graph α) (id : NodeId) :
    (graph.readers id).length ≤ graph.edgeCount := by
  rcases graph.readers_covered id with live | isolated
  · rw [← unexplored_readers]
    apply List.le_sum_of_mem
    exact List.mem_map.mpr ⟨id, by simpa using live, rfl⟩
  · simp [isolated]

/-- What a visit of a node can cost, with those it causes. -/
noncomputable def visitCost (graph : Graph α) (id : NodeId) : Nat :=
  (graph.edgeCount + 1) ^ (ahead graph.Feeds graph.arena.length id + 1)

/-- The cost of a visit covers the costs of the visits to all readers, since there is
less ahead of each of them. -/
theorem visitCost_pays {graph : Graph α} (linked : graph.Linked) (acyclic : graph.Acyclic)
    (id : NodeId) : 1 + ((graph.readers id).map graph.visitCost).sum ≤ graph.visitCost id := by
  let later := (graph.edgeCount + 1) ^ ahead graph.Feeds graph.arena.length id
  have positive : 1 ≤ later := Nat.one_le_pow _ _ (Nat.succ_pos _)
  have each : ∀ cost ∈ (graph.readers id).map graph.visitCost, cost ≤ later := by
    intro cost member
    obtain ⟨reader, reads, rfl⟩ := List.mem_map.mp member
    apply Nat.pow_le_pow_right (Nat.succ_pos _)
    exact ahead_lt acyclic (fun _ _ feeds => (linked.live_of_feeds feeds).2)
      (linked.mem_readers_iff.mp reads)
  have total : ((graph.readers id).map graph.visitCost).sum ≤ graph.edgeCount * later := by
    refine (List.sum_le_card_nsmul _ _ each).trans ?_
    rw [List.length_map, nsmul_eq_mul, Nat.cast_id]
    exact Nat.mul_le_mul_right later (graph.readers_length_le id)
  calc 1 + ((graph.readers id).map graph.visitCost).sum
      ≤ later + graph.edgeCount * later := Nat.add_le_add positive total
    _ = later * (graph.edgeCount + 1) := by ring
    _ = graph.visitCost id := (pow_succ _ _).symm

/-- No visit costs more than the budget has for each. Nothing lies ahead of a place that is not
in the arena. -/
theorem visitCost_le {graph : Graph α} (linked : graph.Linked) (acyclic : graph.Acyclic)
    (id : NodeId) : graph.visitCost id ≤ (graph.edgeCount + 1) ^ graph.arena.length := by
  by_cases inside : id < graph.arena.length
  · exact Nat.pow_le_pow_right (Nat.succ_pos _) (ahead_lt_places acyclic inside)
  · have last : ahead graph.Feeds graph.arena.length id = 0 := by
      classical
      rw [ahead, Finset.card_eq_zero, Finset.filter_eq_empty_iff]
      intro goal _ path
      obtain ⟨_, feeds, _⟩ := Relation.TransGen.head'_iff.mp path
      exact inside (linked.live_of_feeds feeds).1
    cases taken : graph.arena with
    | nil => simp [visitCost, edgeCount, nodes, taken]
    | cons entry rest =>
      rw [visitCost, last]
      exact Nat.pow_le_pow_right (Nat.succ_pos _) (by simp)

/-- The budget of a retyping pays for the nodes it is asked to visit. No path is longer than the arena,
and no node has more readers than there are edges. -/
theorem retypingBudget_pays {graph : Graph α} (linked : graph.Linked) (acyclic : graph.Acyclic)
    (seeds : List NodeId) :
    (seeds.reverse.map graph.visitCost).sum ≤ graph.retypingBudget seeds := by
  refine (List.sum_le_card_nsmul _ ((graph.edgeCount + 1) ^ graph.arena.length) ?_).trans ?_
  · intro cost member
    obtain ⟨id, -, rfl⟩ := List.mem_map.mp member
    exact visitCost_le linked acyclic id
  · simp [retypingBudget]

section Retype

variable [Arithmetic α] {graph : Graph α} {seeds : List NodeId}

/-- A retyping that succeeds has stored the outcome of a propagation. What is known
of propagations can then be used about edits. -/
theorem propagates_of_retype {after : Graph α} (done : retype seeds graph = (.ok (), after)) :
    ∃ final, graph.Propagates graph.storedTypes seeds.reverse final ∧ graph.Sized final ∧
      after = graph.retypedBy final := by
  unfold retype at done
  split at done
  · simp at done
  · rename_i draft settled
    obtain ⟨-, rfl⟩ := Prod.mk.inj done
    obtain ⟨propagates, sized, distinct⟩ :=
      TypeDraft.propagates_of_settle (fun _ => rfl) TypeDraft.distinct_nil settled
    exact ⟨draft.typesAt graph, propagates, sized, TypeDraft.write_eq distinct graph⟩

/-- A retyping that fails leaves the graph as it was. Types are drafted beside the
graph and written at the end. -/
theorem retype_failed {after : Graph α} {failure : Failure}
    (failed : retype seeds graph = (.error failure, after)) : after = graph := by
  unfold retype at failed
  split at failed
  · exact (Prod.mk.inj failed).2.symm
  · simp at failed

/-- On an acyclic graph a retyping succeeds wherever a propagation exists. The
budget lasts, so no retyping fails for running out of it. -/
theorem retype_of_propagates (linked : graph.Linked) (acyclic : graph.Acyclic)
    (single : graph.Single) {final : TypeAssignment}
    (propagates : graph.Propagates graph.storedTypes seeds.reverse final) :
    retype seeds graph = (.ok (), graph.retypedBy final) := by
  have enough := retypingBudget_pays linked acyclic seeds
  obtain ⟨draft, left, reached, -, followed⟩ := @TypeDraft.settle_of_propagates α graph _
    graph.visitCost (visitCost_pays linked acyclic) single _ final seeds.reverse propagates []
    (graph.retypingBudget seeds) [] (TypeDraft.typesAt_nil graph) (fun _ => rfl) enough
  have settled : TypeDraft.settle graph (graph.retypingBudget seeds) seeds.reverse [] =
      .ok draft := by
    rw [List.append_nil] at followed
    rw [followed, TypeDraft.settle]
  obtain ⟨-, -, distinct⟩ :=
    TypeDraft.propagates_of_settle (fun _ => rfl) TypeDraft.distinct_nil settled
  simp only [retype, settled, TypeDraft.write_eq distinct, ← reached, retypedBy]

end Retype

end Graph

end RangeFold
