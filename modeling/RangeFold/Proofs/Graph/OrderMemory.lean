import RangeFold.Graph.OrderMemory
import RangeFold.Proofs.Restoration

/-!
# What is remembered is right

A remembered order is the order of the graph as it is, whatever has been done to the graph and
asked of it. An edit that is refused changes nothing, so it may leave the memory alone; one that
goes through and changes what the order depends on has forgotten it, with the first edge that
moved. A new name is no matter to the order.

The edits with a memory do to the graph what the edits without one do.
-/

namespace RangeFold

open Attempt RangeFold.Graph

variable {α β γ : Type}

namespace Graph

/-- Changing nodes in place maps over the list of live nodes: the same ids, in the
same order. -/
theorem nodes_mapNodes (graph : Graph α) (change : NodeId → Node α → Node α) :
    (graph.mapNodes change).nodes =
      graph.nodes.map fun (id, node) => (id, change id node) := by
  have listed (entries : List (Option (Node α))) (start : Nat) :
      ((entries.mapIdx fun id entry => entry.map (change (start + id))).zipIdx start).filterMap
          (fun item => item.1.map fun node => (item.2, node)) =
        ((entries.zipIdx start).filterMap fun item =>
          item.1.map fun node => (item.2, node)).map fun item => (item.1, change item.1 item.2) := by
    induction entries generalizing start with
    | nil => rfl
    | cons entry rest inductionHypothesis =>
      have others := inductionHypothesis (start + 1)
      simp only [Nat.add_right_comm start 1, Nat.add_assoc] at others
      cases entry <;> simp [others]
  simpa [nodes, mapNodes] using listed graph.arena 0

/-- The order of a graph depends on what its nodes read and on who reads them. Edits
that leave both may keep what is remembered. -/
theorem order_mapNodes (graph : Graph α) {change : NodeId → Node α → Node α}
    (inputs : ∀ id node, (change id node).inputs = node.inputs)
    (consumers : ∀ id node, (change id node).consumers = node.consumers) :
    (graph.mapNodes change).order = graph.order := by
  have readers : (graph.mapNodes change).readers = graph.readers := by
    funext id
    simp only [Graph.readers, node_mapNodes]
    cases graph.node id <;> simp [consumers]
  have missing : (graph.mapNodes change).initialReadiness.missing =
      graph.initialReadiness.missing := by
    refine List.ext_getElem? fun id => ?_
    simp only [initialReadiness, mapNodes, List.getElem?_map, List.getElem?_mapIdx]
    rcases graph.arena[id]? with _ | _ | node <;> simp [inputs]
  have ready : (graph.mapNodes change).initialReadiness.ready = graph.initialReadiness.ready := by
    simp only [initialReadiness, nodes_mapNodes, List.filter_map, List.map_map, Function.comp_def,
      inputs]
  have start : (graph.mapNodes change).initialReadiness = graph.initialReadiness := by
    rw [Readiness.mk.injEq]
    exact ⟨missing, ready⟩
  rw [order, order, readers, start, arena_length_mapNodes]

/-- Names are no matter to the order. It only compares ids and counts inputs. -/
theorem order_relabel (graph : Graph α) (id : NodeId) (old new : String) :
    (graph.relabel id old new).order = graph.order := by
  have renamed : (graph.mapNodes fun place node =>
      if place = id then { node with name := new } else node).order = graph.order :=
    graph.order_mapNodes (fun place node => by split <;> rfl) fun place node => by split <;> rfl
  rw [← modifyNode_eq_mapNodes] at renamed
  exact renamed

/-- Writing no types back is the identity on graphs. -/
theorem retype_nil [Arithmetic α] (graph : Graph α) : retype [] graph = (.ok (), graph) := by
  simp [retype, TypeDraft.settle, TypeDraft.write]

/-- Renaming leaves the computed order alone, since the order reads ids and inputs
but no name. A remembered order may therefore survive it. -/
theorem order_renameNode (graph : Graph α) (id : NodeId) (name : String) :
    (renameNode id name graph).2.order = graph.order := by
  rcases renameNode_cases graph id name with ⟨_, failed⟩ | same | ⟨node, _, _, renamed⟩
  · rw [failed]
  · rw [same]
  · rw [renamed]
    exact graph.order_relabel id node.name name

end Graph

namespace OrderedGraph

/-- The step does to the graph what the other one does, with the same answer. -/
def Follows (ordered : Attempt (OrderedGraph α) β) (step : Attempt (Graph α) β) : Prop :=
  ∀ state, (ordered state).1 = (step state.graph).1 ∧ (ordered state).2.graph = (step state.graph).2

section Follows

/-- A step lifted to the graph component follows itself: the memory plays no part in
its answer. -/
theorem follows_onGraph (step : Attempt (Graph α) β) : Follows (onGraph step) step :=
  fun _ => ⟨rfl, rfl⟩

/-- Answering a value at once is the same with and without a memory. -/
theorem follows_answer (value : β) : Follows (α := α) (pure value) (pure value) :=
  fun _ => ⟨rfl, rfl⟩

/-- Failing at once is the same with and without a memory. -/
theorem follows_fail (failure : Failure) :
    Follows (α := α) (Attempt.fail failure : Attempt _ β) (Attempt.fail failure) :=
  fun _ => ⟨rfl, rfl⟩

/-- A check that looks at no state is the same with and without a memory. -/
theorem follows_lift (checked : Except Failure β) :
    Follows (α := α) (Attempt.lift checked) (Attempt.lift checked) :=
  fun _ => ⟨rfl, rfl⟩

/-- Following is preserved by sequencing. The second steps need to agree for every
value the first may answer, since either run may reach any of them. -/
theorem Follows.bind {ordered : Attempt (OrderedGraph α) β} {step : Attempt (Graph α) β}
    {orderedNext : β → Attempt (OrderedGraph α) γ} {next : β → Attempt (Graph α) γ}
    (first : Follows ordered step) (rest : ∀ value, Follows (orderedNext value) (next value)) :
    Follows (ordered >>= orderedNext) (step >>= next) := by
  intro state
  obtain ⟨answers, leaves⟩ := first state
  rcases outcome : step state.graph with ⟨failure | value, after⟩ <;> rw [outcome] at answers leaves
  · rw [bind_of_error (eq_of_answer answers), bind_of_error outcome]
    exact ⟨rfl, leaves⟩
  · rw [bind_of_ok (eq_of_answer answers), bind_of_ok outcome]
    have graph : (ordered state).2.graph = after := leaves
    exact graph ▸ rest value (ordered state).2

/-- Following is preserved by recovery: the handler starts from the state in which
the first step stopped, and both runs stopped in the same graph. -/
theorem Follows.orElse {ordered : Attempt (OrderedGraph α) β} {step : Attempt (Graph α) β}
    {orderedHandler : Failure → Attempt (OrderedGraph α) β}
    {handler : Failure → Attempt (Graph α) β}
    (first : Follows ordered step)
    (handling : ∀ failure, Follows (orderedHandler failure) (handler failure)) :
    Follows (ordered.orElse orderedHandler) (step.orElse handler) := by
  intro state
  obtain ⟨answers, leaves⟩ := first state
  rcases outcome : step state.graph with ⟨failure | value, after⟩ <;> rw [outcome] at answers leaves
  · rw [orElse_of_error (eq_of_answer answers), orElse_of_error outcome]
    have graph : (ordered state).2.graph = after := leaves
    exact graph ▸ handling failure (ordered state).2
  · rw [orElse_of_ok (eq_of_answer answers), orElse_of_ok outcome]
    exact ⟨rfl, leaves⟩

/-- Following is preserved by a loop over a list, by induction on the items that are
left. -/
theorem Follows.forEach {ordered : γ → Attempt (OrderedGraph α) Unit}
    {step : γ → Attempt (Graph α) Unit} (each : ∀ item, Follows (ordered item) (step item))
    (items : List γ) : Follows (Attempt.forEach ordered items) (Attempt.forEach step items) := by
  induction items with
  | nil => exact follows_answer ()
  | cons item rest inductionHypothesis => exact (each item).bind fun _ => inductionHypothesis

/-- A successful step clears the memory, whatever order it held. -/
theorem forgetting_of_ok {step : Attempt (Graph α) β} {state : OrderedGraph α} {value : β}
    {after : Graph α} (succeeded : step state.graph = (.ok value, after)) :
    forgetting step state = (.ok value, ⟨after, none⟩) := by
  have stepped : onGraph step state = (.ok value, { state with graph := after }) := by
    simp [onGraph, within, succeeded]
  rw [forgetting, bind_of_ok stepped]
  rfl

/-- A refused step leaves the memory as it was. This is sound only where a refusal
restores the graph. -/
theorem forgetting_of_error {step : Attempt (Graph α) β} {state : OrderedGraph α}
    {failure : Failure} {after : Graph α} (failed : step state.graph = (.error failure, after)) :
    forgetting step state = (.error failure, { state with graph := after }) := by
  have stepped : onGraph step state = (.error failure, { state with graph := after }) := by
    simp [onGraph, within, failed]
  rw [forgetting, bind_of_error stepped]

/-- Clearing the memory changes no answer and no graph. -/
theorem follows_forgetting (step : Attempt (Graph α) β) : Follows (forgetting step) step := by
  intro state
  rcases outcome : step state.graph with ⟨failure | value, after⟩
  · rw [forgetting_of_error outcome]
    exact ⟨rfl, rfl⟩
  · rw [forgetting_of_ok outcome]
    exact ⟨rfl, rfl⟩

/-- Moving a list of edges is the same with and without a memory, edge by edge. -/
theorem follows_rewireAll (moves : List (Consumer × OutputRef)) :
    Follows (α := α) (rewireAll moves) (Graph.rewireAll moves) := by
  induction moves with
  | nil => exact follows_answer []
  | cons move rest inductionHypothesis =>
    exact (follows_forgetting _).bind fun _ => inductionHypothesis.bind fun _ => follows_answer _

/-- Removing a list of nodes is the same with and without a memory, node by node. -/
theorem follows_removeEach (ids : List NodeId) :
    Follows (α := α) (removeEach ids) (Graph.removeEach ids) :=
  .forEach (fun _ => (follows_forgetting _).bind fun _ => follows_answer ()) ids

variable [Arithmetic α]

/-- Setting one input answers as it does on the bare graph. -/
theorem follows_setInput (id : NodeId) (input : Nat) (source : OutputRef) :
    Follows (α := α) (setInput id input source) (Graph.setInput id input source) := by
  refine (follows_onGraph _).bind fun graph => (follows_onGraph _).bind fun node => ?_
  split
  · exact follows_fail _
  · refine (follows_lift _).bind fun _ => ?_
    split
    · exact follows_fail _
    · refine (follows_forgetting _).bind fun previous =>
        (follows_onGraph _).orElse fun failure => ?_
      exact (follows_forgetting _).bind fun _ => follows_fail failure

/-- Replacing a node answers as it does on the bare graph, also where it undoes the
edges already moved. -/
theorem follows_replaceNode (id : NodeId) (outputs : List OutputRef) :
    Follows (α := α) (replaceNode id outputs) (Graph.replaceNode id outputs) := by
  refine (follows_onGraph _).bind fun graph => (follows_onGraph _).bind fun node =>
    (follows_lift _).bind fun _ => (follows_rewireAll _).bind fun undo => ?_
  refine ((follows_onGraph _).orElse fun failure => ?_).bind fun _ => ?_
  · exact (follows_rewireAll undo).bind fun _ => follows_fail failure
  · split
    · exact follows_answer ()
    · exact (follows_forgetting _).bind fun _ => follows_answer ()

end Follows

/-- Nothing is remembered. -/
def Blank (state : OrderedGraph α) : Prop := state.remembered = none

section Blank

/-- A lifted step never fills an empty memory, because it never touches the memory. -/
theorem keeps_blank_onGraph (step : Attempt (Graph α) β) : Keeps Blank (onGraph step) :=
  fun _ blank => blank

/-- A clearing step never fills an empty memory, whether it succeeds or is refused. -/
theorem keeps_blank_forgetting (step : Attempt (Graph α) β) : Keeps Blank (forgetting step) :=
  keeps_bind (keeps_blank_onGraph step) fun _ =>
    keeps_bind (keeps_update fun _ _ => rfl) fun _ => keeps_answer _

/-- Moving edges never fills an empty memory, so the half-done state of a failed
replacement carries no stale order. -/
theorem keeps_blank_rewireAll (moves : List (Consumer × OutputRef)) :
    Keeps Blank (rewireAll moves : Attempt (OrderedGraph α) _) := by
  induction moves with
  | nil => exact keeps_answer []
  | cons move rest inductionHypothesis =>
    exact keeps_bind (keeps_blank_forgetting _) fun _ =>
      keeps_bind inductionHypothesis fun _ => keeps_answer _

end Blank

/-- What is remembered is the order. -/
def Faithful (state : OrderedGraph α) : Prop :=
  ∀ order, state.remembered = some order → order = state.graph.order

section Faithful

variable {state : OrderedGraph α}

/-- An empty memory is faithful: it claims nothing about the graph. -/
theorem Blank.faithful (blank : state.Blank) : state.Faithful := by
  intro order remembered
  cases blank.symm.trans remembered

/-- Asking for the order answers with the order. It is then remembered, whether or
not it was before. -/
theorem Faithful.order_eq (faithful : state.Faithful) :
    order state = (.ok state.graph.order, ⟨state.graph, some state.graph.order⟩) := by
  obtain ⟨graph, _ | remembered⟩ := state
  · rfl
  · rw [order, faithful remembered rfl]

/-- A faithful memory answers the reversed order of the graph and afterwards holds
the order itself. Both the remembered and the recomputed case end there. -/
theorem Faithful.reverseOrder_eq (faithful : state.Faithful) :
    reverseOrder state =
      (.ok state.graph.reverseOrder, ⟨state.graph, some state.graph.order⟩) := by
  rw [reverseOrder, bind_of_ok faithful.order_eq]
  rfl

/-- A step on the graph that is no matter to the order. What is remembered stays the
order of the graph. -/
theorem Faithful.onGraph {step : Attempt (Graph α) β} (faithful : state.Faithful)
    (steady : (step state.graph).2.order = state.graph.order) : (onGraph step state).2.Faithful :=
  fun order remembered => (faithful order remembered).trans steady.symm

/-- A step that changes nothing when it fails, and is followed by forgetting when it
succeeds. If it fails the graph is the old one, and so is its order. -/
theorem Faithful.forgetting {step : Attempt (Graph α) β} (faithful : state.Faithful)
    (restores : step.Restores state.graph) : (forgetting step state).2.Faithful := by
  rcases outcome : step state.graph with ⟨failure | value, after⟩
  · rw [forgetting_of_error outcome, restores failure after outcome]
    exact faithful
  · rw [forgetting_of_ok outcome]
    exact Blank.faithful rfl

/-- Reading the graph component answers it and changes nothing. -/
theorem onGraph_read : OrderedGraph.onGraph Attempt.read state = (.ok state.graph, state) := rfl

/-- Looking up a node answers as on the bare graph and leaves the memory alone. -/
theorem onGraph_getNode (id : NodeId) : OrderedGraph.onGraph (Graph.getNode id) state =
    (state.graph.nodeAt id, state) := rfl

/-- A step that asks for a node first leaves the memory right if it does so for a
live node. For a place that is empty it stops at once. -/
theorem Faithful.after_getNode {id : NodeId} {next : Node α → Attempt (OrderedGraph α) β}
    (faithful : state.Faithful)
    (rest : ∀ node, state.graph.node id = some node → (next node state).2.Faithful) :
    ((OrderedGraph.onGraph (Graph.getNode id) >>= next) state).2.Faithful := by
  cases found : state.graph.node id with
  | none =>
    have missing : state.graph.nodeAt id = .error (.deadNode id) := by simp [nodeAt, found]
    rw [bind_of_error ((onGraph_getNode id).trans (by rw [missing]))]
    exact faithful
  | some node =>
    rw [bind_of_ok ((onGraph_getNode id).trans (by rw [nodeAt_of_node found]))]
    exact rest node found

/-- Pruning in the remembered order removes the same nodes with the same answer. The
remembered order is the one that would be computed, so the list of nodes to remove
is the same. -/
theorem Faithful.prune_eq {state : OrderedGraph α} (faithful : state.Faithful) :
    (prune state).1 = (Graph.prune state.graph).1 ∧
      (prune state).2.graph = (Graph.prune state.graph).2 := by
  rw [prune, bind_of_ok onGraph_read, bind_of_ok faithful.reverseOrder_eq]
  exact ((follows_removeEach _).bind fun _ => follows_answer _)
    ⟨state.graph, some state.graph.order⟩

/-- Moving a first edge from a value to a live one forgets the order for good.
Nothing that follows in the same edit remembers one again. -/
theorem blank_rewire {next : OutputRef → Attempt (OrderedGraph α) β} (linked : state.graph.Linked)
    {consumer : Consumer} {previous source : OutputRef}
    (reads : state.graph.Reads consumer previous)
    (live : ∃ slot, state.graph.outputSlot source = some slot)
    (rest : ∀ value, Keeps Blank (next value)) :
    ((rewire consumer source >>= next) state).2.Blank := by
  have moved := forgetting_of_ok (linked.rewire_eq reads live)
  rw [rewire, bind_of_ok moved]
  exact rest previous _ rfl

variable [Arithmetic α]

/-- Setting an input forgets the order with the edge it moves, and moves none if it
is refused. Undoing the edge happens with the memory already empty. -/
theorem Faithful.setInput (faithful : state.Faithful) (linked : state.graph.Linked) (id : NodeId)
    (input : Nat) (source : OutputRef) : (setInput id input source state).2.Faithful := by
  rw [OrderedGraph.setInput, bind_of_ok onGraph_read]
  refine faithful.after_getNode fun node found => ?_
  by_cases outside : node.inputs.length ≤ input
  · rw [if_pos outside]
    exact faithful
  · rw [if_neg outside]
    refine holds_after_lift faithful fun types typed => ?_
    split
    · exact faithful
    · have inside : input < node.inputs.length := Nat.lt_of_not_le outside
      have reads : state.graph.Reads ⟨id, input⟩ node.inputs[input] :=
        ⟨node, found, List.getElem?_eq_getElem inside⟩
      have live := exists_outputSlot_of_typesOf typed List.mem_cons_self
      refine (blank_rewire linked reads live fun previous => ?_).faithful
      exact keeps_orElse (keeps_blank_onGraph _) fun failure =>
        keeps_bind (keeps_blank_forgetting _) fun _ => keeps_fail failure

/-- A replacement forgets the order with the first edge it moves or with the node it
removes. Between the two there is no request for the order. -/
theorem Faithful.replaceNode (faithful : state.Faithful) (linked : state.graph.Linked)
    (single : state.graph.Single) (id : NodeId) (outputs : List OutputRef) :
    (replaceNode id outputs state).2.Faithful := by
  rw [OrderedGraph.replaceNode, bind_of_ok onGraph_read]
  refine faithful.after_getNode fun node found => holds_after_lift faithful fun _ checked => ?_
  obtain ⟨target, rfl, replaceable⟩ := (linked.checkReplacement_iff single found).mp checked
  rw [single.replacementMoves_eq found]
  have redirectable := replaceable.redirectable
  cases readers : node.consumers with
  | nil =>
    -- no edge moves and no type changes
    have retyped : OrderedGraph.onGraph (retype []) state = (.ok (), state) := by
      simp [OrderedGraph.onGraph, within, retype_nil]
    simp only [List.map_nil, rewireAll, answer_bind]
    rw [bind_of_ok (orElse_of_ok retyped)]
    split
    · exact faithful
    · exact holds_after_bind (faithful.forgetting (linked.restores_removeNode id)) fun _ =>
        keeps_answer ()
  | cons first rest =>
    have reads := redirectable.reading first (readers ▸ List.mem_cons_self)
    have moved :
        (rewireAll ((first :: rest).map fun consumer => (consumer, target)) state).2.Blank :=
      blank_rewire linked reads redirectable.live fun _ =>
        keeps_bind (keeps_blank_rewireAll _) fun _ => keeps_answer _
    refine (holds_after_bind moved fun undo => keeps_bind ?_ fun _ => ?_).faithful
    · exact keeps_orElse (keeps_blank_onGraph _) fun failure =>
        keeps_bind (keeps_blank_rewireAll undo) fun _ => keeps_fail failure
    · split
      · exact keeps_answer ()
      · exact keeps_bind (keeps_blank_forgetting _) fun _ => keeps_answer ()

end Faithful

/-! ## Requests -/

/-- What may be asked of a graph with a memory. -/
inductive Request (α : Type) where
  | add (kind : OpKind) (name : String) (inputs : List OutputRef) (attributes : Attributes α)
  | setInput (id : NodeId) (input : Nat) (source : OutputRef)
  | replace (id : NodeId) (outputs : List OutputRef)
  | remove (id : NodeId)
  | rename (id : NodeId) (name : String)
  | prune
  | order

section Requests

variable [Arithmetic α]

namespace Request

/-- What a request leaves, whether it succeeds or fails. -/
def perform : Request α → OrderedGraph α → OrderedGraph α
  | add kind name inputs attributes, state => (addNode kind name inputs attributes state).2
  | setInput id input source, state => (OrderedGraph.setInput id input source state).2
  | replace id outputs, state => (replaceNode id outputs state).2
  | remove id, state => (removeNode id state).2
  | rename id name, state => (renameNode id name state).2
  | prune, state => (OrderedGraph.prune state).2
  | order, state => (OrderedGraph.order state).2

/-- What a sequence of requests leaves. -/
def performAll (requests : List (Request α)) (state : OrderedGraph α) : OrderedGraph α :=
  requests.foldl (fun state request => request.perform state) state

end Request

/-- A graph and a memory that some requests lead to. -/
def Carried (state : OrderedGraph α) : Prop :=
  ∃ requests : List (Request α), Request.performAll requests empty = state

/-- A carried memory stays carried under every request of the public interface, the
ones that fail included. -/
theorem Carried.request {state : OrderedGraph α} (carried : state.Carried) (request : Request α) :
    (request.perform state).Carried := by
  obtain ⟨requests, rfl⟩ := carried
  exact ⟨requests ++ [request], by simp [Request.performAll]⟩

/-- The graph is one of some session, and what is remembered is its order. -/
structure Trusted (state : OrderedGraph α) : Prop where
  reachable : state.graph.Reachable
  faithful : state.Faithful

/-- The empty graph starts with an empty memory and hence with one that can be
trusted. -/
theorem trusted_empty : (empty : OrderedGraph α).Trusted := ⟨⟨[], rfl⟩, Blank.faithful rfl⟩

/-- A step that does to the graph what a call does, and leaves the memory right. The
graph is then still one that a session leads to. -/
theorem Trusted.follow {state : OrderedGraph α} {ordered : Attempt (OrderedGraph α) β}
    {step : Attempt (Graph α) β} (trusted : state.Trusted) (call : Call α)
    (follows : Follows ordered step) (same : call.perform state.graph = (step state.graph).2)
    (faithful : (ordered state).2.Faithful) : (ordered state).2.Trusted where
  reachable := by
    rw [(follows state).2, ← same]
    exact trusted.reachable.call call
  faithful := faithful

/-- Removing a node keeps the memory trusted: it is cleared on success and still
right after a refusal. -/
theorem keeps_trusted_removeNode (id : NodeId) :
    Keeps Trusted (removeNode id : Attempt (OrderedGraph α) (Node α)) :=
  fun _ trusted => trusted.follow (.remove id) (follows_forgetting _) rfl
    (trusted.faithful.forgetting (trusted.reachable.sound.linked.restores_removeNode id))

/-- Asking for the order keeps the memory trusted. What is stored is the order just
computed from the graph. -/
theorem keeps_trusted_order : Keeps Trusted (order : Attempt (OrderedGraph α) (List NodeId)) := by
  intro state trusted
  rw [trusted.faithful.order_eq]
  exact ⟨trusted.reachable, fun _ remembered => (Option.some.inj remembered).symm⟩

/-- Pruning keeps the memory trusted, through its request for the order and every
removal that follows. -/
theorem keeps_trusted_prune : Keeps Trusted (prune : Attempt (OrderedGraph α) Nat) := by
  have removing (ids : List NodeId) :
      Keeps Trusted (removeEach ids : Attempt (OrderedGraph α) Unit) :=
    keeps_forEach (fun id => keeps_bind (keeps_trusted_removeNode id) fun _ => keeps_answer ()) ids
  exact fun state trusted =>
    keeps_bind (keeps_bind keeps_trusted_order fun _ => keeps_answer _)
      (fun _ => keeps_bind (removing _) fun _ => keeps_answer _) state trusted

/-- Whatever is asked of a graph, what is remembered afterwards is the order. There
is a case for each request, the refused ones included. -/
theorem Request.perform_trusted (request : Request α) {state : OrderedGraph α}
    (trusted : state.Trusted) : (request.perform state).Trusted := by
  have sound := trusted.reachable.sound
  cases request with
  | add kind name inputs attributes =>
    exact trusted.follow (.add kind name inputs attributes) (follows_forgetting _) rfl
      (trusted.faithful.forgetting (restores_addNode state.graph kind name inputs attributes))
  | setInput id input source =>
    exact trusted.follow (.setInput id input source) (follows_setInput id input source) rfl
      (trusted.faithful.setInput sound.linked id input source)
  | replace id outputs =>
    exact trusted.follow (.replace id outputs) (follows_replaceNode id outputs) rfl
      (trusted.faithful.replaceNode sound.linked sound.fresh.single id outputs)
  | remove id => exact keeps_trusted_removeNode id state trusted
  | rename id name =>
    exact trusted.follow (.rename id name) (follows_onGraph _) rfl
      (trusted.faithful.onGraph (order_renameNode state.graph id name))
  | prune => exact keeps_trusted_prune state trusted
  | order => exact keeps_trusted_order state trusted

/-- What is carried along is right. By induction on the requests that led there. -/
theorem Carried.trusted {state : OrderedGraph α} (carried : state.Carried) : state.Trusted := by
  obtain ⟨requests, rfl⟩ := carried
  have kept (requests : List (Request α)) (state : OrderedGraph α) (trusted : state.Trusted) :
      (Request.performAll requests state).Trusted := by
    induction requests generalizing state with
    | nil => exact trusted
    | cons request rest inductionHypothesis =>
      exact inductionHypothesis _ (request.perform_trusted trusted)
  exact kept requests empty trusted_empty

/-- A request that does to the graph what a step does carries on what the step
leaves. It lets sessions on the bare graph be repeated with a memory. -/
theorem Carried.follow {graph : Graph α} {ordered : Attempt (OrderedGraph α) β}
    {step : Attempt (Graph α) β} (follows : Follows ordered step) (request : Request α)
    (same : ∀ state, request.perform state = (ordered state).2)
    (carried : ∃ memory, Carried ⟨graph, memory⟩) : ∃ memory, Carried ⟨(step graph).2, memory⟩ := by
  obtain ⟨memory, carried⟩ := carried
  have done := carried.request request
  rw [same] at done
  refine ⟨(ordered ⟨graph, memory⟩).2.remembered, ?_⟩
  rw [← (follows ⟨graph, memory⟩).2]
  exact done

/-- Whatever graph a session leads to is carried along with some memory. What is
proved of carried graphs holds for all that can be reached. -/
theorem survives_carried :
    SurvivesEdits fun graph : Graph α => ∃ memory, Carried ⟨graph, memory⟩ where
  addNode kind name inputs attributes _ :=
    Carried.follow (follows_forgetting _) (.add kind name inputs attributes) fun _ => rfl
  setInput id input source _ :=
    Carried.follow (follows_setInput id input source) (.setInput id input source) fun _ => rfl
  replaceNode id outputs _ :=
    Carried.follow (follows_replaceNode id outputs) (.replace id outputs) fun _ => rfl
  removeNode id _ := Carried.follow (follows_forgetting _) (.remove id) fun _ => rfl
  renameNode id name _ := Carried.follow (follows_onGraph _) (.rename id name) fun _ => rfl

end Requests

end OrderedGraph

end RangeFold
