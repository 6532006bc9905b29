import RangeFold.Proofs.Meaning.Edits
import RangeFold.Proofs.Session

/-!
# The interface of a graph

What the user of a graph sees of it: its entries and exits with their names and types,
and the arrays at the exits. An edit is invisible as long as it spares the nodes of the
interface, and a replacement as long as both values are the same array of the same type.
-/

namespace RangeFold

variable {α : Type}

namespace Graph

/-- The node is an entry or an exit. -/
def Exposed (graph : Graph α) (id : NodeId) : Prop := id ∈ graph.parameters ∨ id ∈ graph.results

/-- What a node of the interface is known by. -/
def label (graph : Graph α) (id : NodeId) : Option (String × List TensorType) :=
  (graph.node id).map fun node => (node.name, node.outputTypes)

/-- A node of the interface is live, so it lies within the arena. A new node can
never be mistaken for one. -/
theorem Indexed.exposed_lt {graph : Graph α} (indexed : graph.Indexed) {id : NodeId}
    (exposed : graph.Exposed id) : id < graph.arena.length := by
  rcases exposed with listed | listed
  · obtain ⟨node, found, _⟩ := (indexed.parameters id).mp listed
    exact lt_of_node found
  · obtain ⟨node, found, _⟩ := (indexed.results id).mp listed
    exact lt_of_node found

/-- A node that is neither entry nor exit by its kind is not on the interface. The
lists of entries and exits hold nodes of those kinds only. -/
theorem Indexed.inner_of_kind {graph : Graph α} (indexed : graph.Indexed) {id : NodeId}
    {node : Node α} (found : graph.node id = some node) (inner : node.kind ≠ .parameter)
    (innerToo : node.kind ≠ .result) : ¬ graph.Exposed id := by
  rintro (listed | listed)
  · obtain ⟨same, foundAgain, kind⟩ := (indexed.parameters id).mp listed
    exact inner (Option.some.inj (found.symm.trans foundAgain) ▸ kind)
  · obtain ⟨same, foundAgain, kind⟩ := (indexed.results id).mp listed
    exact innerToo (Option.some.inj (found.symm.trans foundAgain) ▸ kind)

/-- The second graph may stand for the first: it has the same entries and exits, with the
same names and types, and every exit has the same value, whatever the operations mean and
whatever arrays are given to the entries. -/
structure Simulates [Arithmetic α] (graph after : Graph α) : Prop where
  parameters : after.parameters = graph.parameters
  results : after.results = graph.results
  labels : ∀ id, graph.Exposed id → after.label id = graph.label id
  values : ∀ interpretation assignment, ∀ id ∈ graph.results,
    after.value interpretation assignment id = graph.value interpretation assignment id

section Simulates

variable [Arithmetic α] {graph after : Graph α}

/-- A graph may stand for itself. -/
theorem Simulates.refl (graph : Graph α) : graph.Simulates graph :=
  ⟨rfl, rfl, fun _ _ => rfl, fun _ _ _ _ => rfl⟩

/-- Graphs that may stand for one another have the same interface. -/
theorem Simulates.exposed_iff (simulates : graph.Simulates after) {id : NodeId} :
    after.Exposed id ↔ graph.Exposed id := by
  rw [Exposed, Exposed, simulates.parameters, simulates.results]

/-- Standing for another graph is transitive, so it can be followed along a run. -/
theorem Simulates.trans {last : Graph α} (first : graph.Simulates after)
    (second : after.Simulates last) : graph.Simulates last where
  parameters := second.parameters.trans first.parameters
  results := second.results.trans first.results
  labels id exposed :=
    (second.labels id (first.exposed_iff.mpr exposed)).trans (first.labels id exposed)
  values interpretation assignment id listed :=
    (second.values interpretation assignment id (first.results ▸ listed)).trans
      (first.values interpretation assignment id listed)

/-- A node that is neither entry nor exit may be added. The value of every other
node is the same. -/
theorem Sound.simulates_attach (sound : graph.Sound) {node : Node α}
    (soundAfter : (graph.attach node).Sound)
    (live : ∀ source ∈ node.inputs, ∃ slot, graph.outputSlot source = some slot)
    (inner : node.kind ≠ .parameter) (innerToo : node.kind ≠ .result) :
    graph.Simulates (graph.attach node) where
  parameters := parameters_attach.trans (if_neg inner)
  results := results_attach.trans (if_neg innerToo)
  labels id exposed := by
    rw [label, label, node_attach_old (Nat.ne_of_lt (sound.indexed.exposed_lt exposed)),
      Option.map_map]
    simp [Function.comp_def]
  values _ _ id listed :=
    sound.value_attach soundAfter live
      (Nat.ne_of_lt (sound.indexed.exposed_lt (Or.inr listed)))

/-- A node that is neither entry nor exit may be removed. The value of every other
node is the same. -/
theorem Sound.simulates_detach (sound : graph.Sound) {id : NodeId} {name : String}
    (soundAfter : (graph.detach id name).Sound) (unread : ∀ reader, ¬ graph.Feeds id reader)
    (inner : ¬ graph.Exposed id) : graph.Simulates (graph.detach id name) where
  parameters := by
    rw [parameters_detach, List.filter_eq_self]
    rintro other listed
    exact decide_eq_true fun same => inner (Or.inl (same ▸ listed))
  results := by
    rw [results_detach, List.filter_eq_self]
    rintro other listed
    exact decide_eq_true fun same => inner (Or.inr (same ▸ listed))
  labels other exposed := by
    have stays : other ≠ id := fun same => inner (same ▸ exposed)
    rw [label, label, node_detach, if_neg stays, Option.map_map]
    simp [Function.comp_def]
  values _ _ other listed :=
    sound.value_detach soundAfter unread fun same => inner (Or.inr (same ▸ listed))

/-- A node that is neither entry nor exit may be renamed. Labels are compared on the
interface only. -/
theorem Sound.simulates_relabel (sound : graph.Sound) {id : NodeId} {old new : String}
    (soundAfter : (graph.relabel id old new).Sound) (inner : ¬ graph.Exposed id) :
    graph.Simulates (graph.relabel id old new) where
  parameters := rfl
  results := rfl
  labels other exposed := by
    have stays : other ≠ id := fun same => inner (same ▸ exposed)
    simp [label, node_relabel, stays]
  values _ _ other _ := sound.value_relabel soundAfter other

/-- Readers may move to a value that is the same array. The arrays have to agree
under every interpretation and for every choice of inputs. -/
theorem Sound.simulates_redirect (sound : graph.Sound) {previous target : OutputRef}
    {moved : List Consumer} (redirectable : graph.Redirectable previous target moved)
    (equal : ∀ interpretation assignment,
      inputValue (graph.value interpretation assignment) target =
        inputValue (graph.value interpretation assignment) previous) :
    graph.Simulates (graph.redirect previous target moved) where
  parameters := rfl
  results := rfl
  labels id _ := by
    rw [label, label, node_redirect, Option.map_map]
    simp [Function.comp_def]
  values interpretation assignment id _ :=
    sound.value_redirect redirectable (equal interpretation assignment) id

end Simulates

/-- A sound graph that may stand for the one a run started from. -/
structure Preserves [Arithmetic α] (origin graph : Graph α) : Prop where
  sound : graph.Sound
  simulates : origin.Simulates graph

section Preserves

open Attempt

variable [Arithmetic α] {origin graph : Graph α}

/-- A sound graph that may stand for the present one may stand for the original. -/
theorem Preserves.next {after : Graph α} (preserves : Preserves origin graph)
    (sound : after.Sound) (simulates : graph.Simulates after) : Preserves origin after :=
  ⟨sound, preserves.simulates.trans simulates⟩

/-- Nodes inside the original graph are inside the present one. -/
theorem Preserves.inner (preserves : Preserves origin graph) {id : NodeId}
    (inner : ¬ origin.Exposed id) : ¬ graph.Exposed id :=
  fun exposed => inner (preserves.simulates.exposed_iff.mp exposed)

/-- A place that is still free is not on the interface. The node that comes to stand
there may be edited freely. -/
theorem Preserves.fresh_inner (preserves : Preserves origin graph) :
    ¬ origin.Exposed graph.arena.length := fun exposed =>
  Nat.lt_irrefl _ (preserves.sound.indexed.exposed_lt (preserves.simulates.exposed_iff.mpr exposed))

/-- A node that is neither parameter nor result can be added without touching any
value of the interface: nobody reads it yet. -/
theorem preserves_addNode {kind : OpKind} (inner : kind ≠ .parameter) (innerToo : kind ≠ .result)
    (name : String) (inputs : List OutputRef) (attributes : Attributes α) :
    Keeps (Preserves origin) (addNode kind name inputs attributes) := by
  intro graph preserves
  have soundAfter := keeps_addNode kind name inputs attributes graph preserves.sound
  rcases addNode_cases graph kind name inputs attributes with
    ⟨failure, failed⟩ | ⟨inputTypes, outputTypes, free, known, typed, added⟩
  · rw [failed]
    exact preserves
  · rw [added] at soundAfter ⊢
    exact preserves.next soundAfter (preserves.sound.simulates_attach soundAfter
      (fun _ => exists_outputSlot_of_known known) inner innerToo)

/-- An inner node can be removed. Only unread nodes are, so no value depends on it. -/
theorem preserves_removeNode {id : NodeId} (inner : ¬ origin.Exposed id) :
    Keeps (Preserves origin) (removeNode id : Attempt (Graph α) (Node α)) := by
  intro graph preserves
  have soundAfter := keeps_removeNode id graph preserves.sound
  rcases preserves.sound.linked.removeNode_cases id with
    ⟨failure, failed⟩ | ⟨node, found, idle, removed⟩
  · rw [failed]
    exact preserves
  · rw [removed] at soundAfter ⊢
    exact preserves.next soundAfter (preserves.sound.simulates_detach soundAfter
      (preserves.sound.linked.unread found idle) (preserves.inner inner))

/-- Inner nodes can be removed one after the other, up to the first that is refused. -/
theorem preserves_removeEach {ids : List NodeId} (inner : ∀ id ∈ ids, ¬ origin.Exposed id) :
    Keeps (Preserves origin) (removeEach ids : Attempt (Graph α) Unit) := by
  induction ids with
  | nil => exact keeps_answer ()
  | cons id rest inductionHypothesis =>
    have first : Keeps (Preserves origin)
        (removeNode id >>= fun _ => pure () : Attempt (Graph α) Unit) :=
      keeps_bind (preserves_removeNode (inner id List.mem_cons_self)) fun _ => keeps_answer ()
    exact keeps_bind first fun _ => inductionHypothesis fun other member =>
      inner other (List.mem_cons_of_mem id member)

/-- An inner node can be renamed. Names of the interface are part of what is
preserved, those inside are not. -/
theorem preserves_renameNode {id : NodeId} (inner : ¬ origin.Exposed id) (name : String) :
    Keeps (Preserves origin) (renameNode id name : Attempt (Graph α) Unit) := by
  intro graph preserves
  have soundAfter := keeps_renameNode id name graph preserves.sound
  rcases renameNode_cases graph id name with
    ⟨failure, failed⟩ | same | ⟨node, found, free, renamed⟩
  · rw [failed]
    exact preserves
  · rw [same]
    exact preserves
  · rw [renamed] at soundAfter ⊢
    exact preserves.next soundAfter
      (preserves.sound.simulates_relabel soundAfter (preserves.inner inner))

/-- Pruning spares the interface, since everything on it is needed. Removing what is
not needed changes no value of what is. -/
theorem preserves_prune : Keeps (Preserves origin) (prune : Attempt (Graph α) Nat) := by
  refine keeps_read_bind fun graph preserves => ?_
  have spared : ∀ id ∈ graph.unneeded, ¬ origin.Exposed id := by
    intro id dead exposed
    have required : id ∈ graph.needed := by
      rw [needed, mem_dependencies_iff]
      refine ⟨id, ?_, Relation.ReflTransGen.refl⟩
      rw [List.mem_append]
      exact (preserves.simulates.exposed_iff.mpr exposed).symm
    simp [unneeded, required] at dead
  exact keeps_bind (preserves_removeEach spared) (fun _ => keeps_answer _) graph preserves

/-- Replacing an inner node by the same array of the same type is invisible. The
removal at the end is of a node that nobody reads any more. -/
theorem Preserves.replaceNode (preserves : Preserves origin graph) {id : NodeId}
    {target : OutputRef} (inner : ¬ origin.Exposed id)
    (typed : graph.outputType target = graph.outputType ⟨id, 0⟩)
    (equal : ∀ interpretation assignment,
      inputValue (graph.value interpretation assignment) target =
        graph.value interpretation assignment id) :
    Preserves origin (Graph.replaceNode id [target] graph).2 := by
  have sound := preserves.sound
  by_cases ready : ∃ node, graph.Replaceable id node target
  · obtain ⟨node, replaceable⟩ := ready
    have redirectable := replaceable.redirectable
    rcases sound.replaceNode_cases replaceable with
      ⟨types, propagates, replacing, soundAfter⟩ | ⟨_, failure, failed⟩
    · have soundMoved := sound.redirect redirectable typed
      have still : types = graph.storedTypes := by
        apply propagates.eq_of_consistent
        have consistent := fresh_iff_consistent.mp soundMoved.fresh
        rwa [storedTypes_redirect] at consistent
      have unchanged : (graph.redirect ⟨id, 0⟩ target node.consumers).retypedBy types =
          graph.redirect ⟨id, 0⟩ target node.consumers := by
        rw [still, ← storedTypes_redirect, retypedBy_storedTypes]
      have entry : node.kind ≠ .parameter := by
        intro kind
        exact preserves.inner inner
          (Or.inl ((sound.indexed.parameters id).mpr ⟨node, replaceable.found, kind⟩))
      rw [replacing]
      rw [replaced, unchanged, if_neg entry] at soundAfter ⊢
      obtain ⟨after, found, _, idle⟩ := replaceable.unread sound.fresh.single types
      rw [unchanged] at found
      have moved := preserves.next soundMoved (sound.simulates_redirect redirectable fun
        interpretation assignment => (equal interpretation assignment).trans (if_pos rfl).symm)
      exact moved.next soundAfter (soundMoved.simulates_detach soundAfter
        (soundMoved.linked.unread found idle) (moved.inner inner))
    · rw [failed]
      exact preserves
  · have closed (node : Node α) (value : OutputRef) (same : [target] = [value]) :
        ¬ graph.Replaceable id node value := by
      obtain rfl := List.singleton_inj.mp same
      exact fun replaceable => ready ⟨node, replaceable⟩
    obtain ⟨failure, failed⟩ := sound.replaceNode_refused closed
    rw [failed]
    exact preserves

end Preserves

end Graph

end RangeFold
