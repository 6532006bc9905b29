import RangeFold.Graph.Rewiring
import RangeFold.Proofs.Graph.Links

/-!
# Redirection

Moving readers from one value to another, at both ends of each edge at once. Moving
one edge is the smallest case; moving several in turn comes to the same as moving
them together, in the order in which they were moved.

Moving the readers back does not undo the move: those that come back stand at the end
of the list they left. The move is undone exactly if they stood there before.
-/

namespace RangeFold

variable {α : Type}

namespace Graph

/-- Change both ends of edges: who reads each value, and which value each input reads. -/
def rearrange (graph : Graph α) (readers : OutputRef → List Consumer → List Consumer)
    (sources : Consumer → OutputRef → OutputRef) : Graph α :=
  graph.mapNodes fun id node => (node.relist readers id).repoint sources id

/-- Rearrangements that agree on the readers of every live value and on what every
input reads have one outcome. -/
theorem rearrange_congr {graph : Graph α}
    {readers readersNext : OutputRef → List Consumer → List Consumer}
    {sources sourcesNext : Consumer → OutputRef → OutputRef}
    (agreeReaders : ∀ source slot, graph.outputSlot source = some slot →
      readers source slot.consumers = readersNext source slot.consumers)
    (agreeSources : ∀ consumer source, graph.Reads consumer source →
      sources consumer source = sourcesNext consumer source) :
    graph.rearrange readers sources = graph.rearrange readersNext sourcesNext := by
  apply mapNodes_congr
  intro id node found
  rw [node.relist_congr readers id fun slot output listed =>
    agreeReaders ⟨id, slot⟩ output (outputSlot_eq_some_iff.mpr ⟨node, found, listed⟩)]
  apply Node.repoint_congr
  intro input source listed
  exact agreeSources ⟨id, input⟩ source ⟨node, found, listed⟩

/-- Two rearrangements in a row are one. Readers and sources are composed
separately. -/
theorem rearrange_rearrange (graph : Graph α)
    (readers readersNext : OutputRef → List Consumer → List Consumer)
    (sources sourcesNext : Consumer → OutputRef → OutputRef) :
    (graph.rearrange readers sources).rearrange readersNext sourcesNext =
      graph.rearrange (fun source list => readersNext source (readers source list))
        fun consumer source => sourcesNext consumer (sources consumer source) := by
  rw [rearrange, rearrange, mapNodes_mapNodes]
  apply mapNodes_congr
  intro id node _
  simp [Node.relist, Node.repoint, List.mapIdx_mapIdx, Function.comp_def]

/-- A rearrangement that moves no input is an edit of the reader lists alone. -/
theorem rearrange_eq_relist (graph : Graph α)
    (readers : OutputRef → List Consumer → List Consumer) :
    (graph.rearrange readers fun _ source => source) = graph.relist readers :=
  mapNodes_congr fun id node _ =>
    Node.repoint_eq_self _ id (node.relist readers id) fun _ _ _ => rfl

/-- The readers of a value after some have moved from `previous` to `target`. They leave
the list of the one and come to stand at the end of the list of the other. -/
def movedReaders (previous target : OutputRef) (moved : List Consumer) (source : OutputRef)
    (readers : List Consumer) : List Consumer :=
  (if source = previous then readers.filter (· ∉ moved) else readers) ++
    if source = target then moved else []

/-- The readers of a value after some of them have moved away and back. They stand at the
end of its list. -/
def returnedReaders (previous : OutputRef) (moved : List Consumer) (source : OutputRef)
    (readers : List Consumer) : List Consumer :=
  if source = previous then readers.filter (· ∉ moved) ++ moved else readers

/-- The value an input reads after some have moved to `target`. -/
def movedSource (target : OutputRef) (moved : List Consumer) (consumer : Consumer)
    (source : OutputRef) : OutputRef :=
  if consumer ∈ moved then target else source

/-- Let the given inputs, which read `previous`, read `target`. -/
def redirect (graph : Graph α) (previous target : OutputRef) (moved : List Consumer) : Graph α :=
  graph.rearrange (movedReaders previous target moved) (movedSource target moved)

section Redirect

variable (graph : Graph α) (previous target : OutputRef) (moved : List Consumer)

/-- A redirection changes the readers of two sources, the one left and the one
arrived at, and no type. -/
theorem outputSlot_redirect (source : OutputRef) :
    (graph.redirect previous target moved).outputSlot source =
      (graph.outputSlot source).map fun slot =>
        { slot with consumers := movedReaders previous target moved source slot.consumers } := by
  simp only [outputSlot, redirect, rearrange, node_mapNodes]
  cases graph.node source.node with
  | none => rfl
  | some node => exact node.relist_output _ source.node source.slot

/-- A value is live after edges have moved if it was before. No output goes away by
moving edges. -/
theorem exists_outputSlot_redirect {source : OutputRef} {slot : OutputSlot}
    (live : graph.outputSlot source = some slot) :
    ∃ after, (graph.redirect previous target moved).outputSlot source = some after := by
  rw [outputSlot_redirect, live]
  exact ⟨_, rfl⟩

/-- A moved edge changes no type. Types are stored apart from the lists of readers. -/
@[simp] theorem outputType_redirect :
    (graph.redirect previous target moved).outputType = graph.outputType := by
  funext source
  rw [outputType_eq_map, outputType_eq_map, outputSlot_redirect, Option.map_map]
  rfl

/-- After a redirection the moved consumers read the target and all others what they
read before. -/
theorem reads_redirect_iff {consumer : Consumer} {source : OutputRef} :
    (graph.redirect previous target moved).Reads consumer source ↔
      ∃ old, graph.Reads consumer old ∧ source = movedSource target moved consumer old := by
  simp only [Reads, redirect, rearrange, exists_node_mapNodes, Node.repoint_input, Node.relist_inputs,
    Option.map_eq_some_iff]
  constructor
  · rintro ⟨node, found, old, listed, rfl⟩
    exact ⟨old, ⟨node, found, listed⟩, rfl⟩
  · rintro ⟨old, ⟨node, found, listed⟩, rfl⟩
    exact ⟨node, found, old, listed, rfl⟩

variable {graph previous target moved}

/-- A node whose inputs have moved sees the same as before of whatever two values have in
common. -/
theorem map_repoint_inputs {β : Type} {known : OutputRef → β} (equal : known target = known previous)
    (reading : ∀ consumer ∈ moved, graph.Reads consumer previous) {id : NodeId} {node : Node α}
    (found : graph.node id = some node) :
    (node.repoint (movedSource target moved) id).inputs.map known = node.inputs.map known := by
  apply List.ext_getElem?
  intro input
  simp only [List.getElem?_map, Node.repoint_input, Option.map_map]
  cases listed : node.inputs[input]? with
  | none => rfl
  | some source =>
    by_cases moves : (⟨id, input⟩ : Consumer) ∈ moved
    · have same : previous = source := (reading _ moves).unique ⟨node, found, listed⟩
      simp [movedSource, moves, equal, same]
    · simp [movedSource, moves]

/-- An input that is not moved reads what it read. This includes other inputs of the
same node. -/
theorem Reads.redirect_of_not_mem {consumer : Consumer} {source : OutputRef}
    (reads : graph.Reads consumer source) (stays : consumer ∉ moved) :
    (graph.redirect previous target moved).Reads consumer source :=
  (graph.reads_redirect_iff previous target moved).mpr ⟨source, reads, (if_neg stays).symm⟩

/-- A moved input reads the new value. What it read before is of no consequence. -/
theorem Reads.redirect_of_mem {consumer : Consumer} {source : OutputRef}
    (reads : graph.Reads consumer source) (moves : consumer ∈ moved) :
    (graph.redirect previous target moved).Reads consumer target :=
  (graph.reads_redirect_iff previous target moved).mpr ⟨source, reads, (if_pos moves).symm⟩

/-- A redirection adds, drops and renames no node, so the index stays right. -/
theorem Indexed.redirect (indexed : graph.Indexed) (previous target : OutputRef)
    (moved : List Consumer) : (graph.redirect previous target moved).Indexed :=
  indexed.mapNodes (fun _ _ => rfl) fun _ _ => rfl

/-- Moved inputs do not read a value they have not moved to, so they are not listed
twice where they arrive. -/
theorem Linked.not_listed (linked : graph.Linked) (reading : ∀ consumer ∈ moved,
      graph.Reads consumer previous) {source : OutputRef} (other : source ≠ previous)
    {slot : OutputSlot} (found : graph.outputSlot source = some slot) {consumer : Consumer}
    (moves : consumer ∈ moved) : consumer ∉ slot.consumers := by
  intro listed
  have reads : graph.Reads consumer source := (linked.listed source slot found consumer).mp listed
  exact other (reads.unique (reading consumer moves))

/-- Redirection keeps the two ends of every edge in step. The moved readers leave
one list and join the other, each of them once. -/
theorem Linked.redirect (linked : graph.Linked) (distinct : moved.Nodup)
    (reading : ∀ consumer ∈ moved, graph.Reads consumer previous)
    (live : ∃ slot, graph.outputSlot target = some slot) :
    (graph.redirect previous target moved).Linked where
  produced consumer source reads := by
    obtain ⟨old, readsOld, rfl⟩ := (graph.reads_redirect_iff previous target moved).mp reads
    have existed : ∃ slot, graph.outputSlot (movedSource target moved consumer old) = some slot := by
      unfold movedSource
      split
      · exact live
      · exact linked.produced consumer old readsOld
    obtain ⟨slot, found⟩ := existed
    exact exists_outputSlot_redirect _ _ _ _ found
  once source slot found := by
    rw [outputSlot_redirect] at found
    obtain ⟨old, foundOld, rfl⟩ := Option.map_eq_some_iff.mp found
    have distinctOld : old.consumers.Nodup := linked.once source old foundOld
    -- Those that stay and those that arrive are listed once each, and none is both.
    refine List.nodup_append.mpr ⟨?_, ?_, ?_⟩
    · split
      · exact distinctOld.filter _
      · exact distinctOld
    · split
      · exact distinct
      · exact List.nodup_nil
    · rintro stays member arrives arrival rfl
      split at arrival
      · split at member
        · simp_all
        · rename_i other
          exact linked.not_listed reading other foundOld arrival member
      · simp at arrival
  listed source slot found consumer := by
    rw [outputSlot_redirect] at found
    obtain ⟨old, foundOld, rfl⟩ := Option.map_eq_some_iff.mp found
    have listedOld := linked.listed source old foundOld consumer
    rw [reads_redirect_iff]
    -- A moved consumer is listed at the target and nowhere else, any other where it was.
    by_cases moves : consumer ∈ moved
    · have reads : graph.Reads consumer previous := reading consumer moves
      have arrives : consumer ∈ movedReaders previous target moved source old.consumers ↔
          source = target := by
        by_cases left : source = previous
        · simp [movedReaders, left, moves]
        · have absent := linked.not_listed reading left foundOld moves
          simp [movedReaders, left, absent, moves]
      rw [arrives]
      constructor
      · rintro rfl
        exact ⟨previous, reads, (if_pos moves).symm⟩
      · rintro ⟨_, _, rfl⟩
        exact if_pos moves
    · have stays : consumer ∈ movedReaders previous target moved source old.consumers ↔
          consumer ∈ old.consumers := by
        by_cases left : source = previous <;> simp [movedReaders, left, moves]
      rw [stays, listedOld]
      constructor
      · intro reads
        exact ⟨source, reads, (if_neg moves).symm⟩
      · rintro ⟨value, reads, rfl⟩
        rwa [movedSource, if_neg moves]

/-- Redirecting no consumer is the identity. -/
theorem redirect_nil : graph.redirect previous target [] = graph := by
  have still : graph.redirect previous target [] = graph.relist fun _ readers => readers := by
    rw [redirect, ← rearrange_eq_relist]
    apply rearrange_congr
    · intro source slot _
      simp [movedReaders]
    · intro consumer source _
      simp [movedSource]
  exact still.trans (relist_eq_self fun _ _ _ => rfl)

/-- Moving one reader and then some others is moving them all. It is the step of the
induction over the moves of a replacement. -/
theorem redirect_cons {first : Consumer} (absent : first ∉ moved) :
    (graph.redirect previous target [first]).redirect previous target moved =
      graph.redirect previous target (first :: moved) := by
  rw [redirect, redirect, rearrange_rearrange]
  apply rearrange_congr
  · intro source slot _
    have left (readers : List Consumer) : (readers.filter (· ∉ [first])).filter (· ∉ moved) =
        readers.filter (· ∉ first :: moved) := by
      simp [List.filter_filter, Bool.and_comm]
    have kept : [first].filter (· ∉ moved) = [first] := by simp [absent]
    unfold movedReaders
    split <;> split <;>
      simp only [List.filter_append, left, kept, List.append_assoc, List.append_nil,
        List.cons_append, List.nil_append]
  · intro consumer source _
    by_cases moves : consumer ∈ moved <;> by_cases same : consumer = first <;>
      simp [movedSource, moves, same]

/-- Readers that return stand at the end of the list they had left. Sources and
targets are as before, so only that one list can differ. -/
theorem redirect_back (linked : graph.Linked)
    (reading : ∀ consumer ∈ moved, graph.Reads consumer previous) :
    (graph.redirect previous target moved).redirect target previous moved =
      graph.relist (returnedReaders previous moved) := by
  rw [redirect, redirect, rearrange_rearrange, ← rearrange_eq_relist]
  apply rearrange_congr
  · intro source slot found
    have gone : moved.filter (· ∉ moved) = [] := by simp
    unfold movedReaders returnedReaders
    split <;> split <;>
      simp only [List.filter_append, List.filter_filter, Bool.and_self, gone, List.append_nil]
    rename_i other
    apply List.filter_eq_self.mpr
    intro consumer listed
    apply decide_eq_true
    intro moves
    exact linked.not_listed reading other found moves listed
  · intro consumer source reads
    by_cases moves : consumer ∈ moved
    · have same : source = previous := reads.unique (reading consumer moves)
      simp [movedSource, moves, same]
    · simp [movedSource, moves]

/-- Moving readers away and back puts them last. Order is thus all that a refused
edit may leave changed. -/
theorem Linked.returned_perm (linked : graph.Linked) (distinct : moved.Nodup)
    (reading : ∀ consumer ∈ moved, graph.Reads consumer previous) {source : OutputRef}
    {slot : OutputSlot} (found : graph.outputSlot source = some slot) :
    (returnedReaders previous moved source slot.consumers).Perm slot.consumers := by
  unfold returnedReaders
  split
  · rename_i same
    subst same
    have once := linked.once source slot found
    refine (List.perm_ext_iff_of_nodup ?_ once).mpr ?_
    · refine List.nodup_append.mpr ⟨once.filter _, distinct, ?_⟩
      rintro consumer stays other moves rfl
      exact of_decide_eq_true (List.mem_filter.mp stays).2 moves
    · intro consumer
      have listed (moves : consumer ∈ moved) : consumer ∈ slot.consumers :=
        (linked.listed source slot found consumer).mpr (reading consumer moves)
      by_cases moves : consumer ∈ moved <;> simp [moves, listed]
  · exact List.Perm.refl _

end Redirect

/-- Editing the reader lists and then the inputs is one rearrangement. The checks of
a rewire run between the two edits, so both forms are needed. -/
theorem relist_eq_rearrange_sources (graph : Graph α)
    (readers : OutputRef → List Consumer → List Consumer)
    (sources : Consumer → OutputRef → OutputRef) :
    (graph.relist readers).mapNodes (Node.repoint sources) = graph.rearrange readers sources :=
  mapNodes_mapNodes graph (Node.relist readers) (Node.repoint sources)

/-- Setting one input of a node is a change of all inputs that spares the others.
The input is told by its node and its number. -/
theorem modifyNode_set_input (graph : Graph α) (consumer : Consumer) (source : OutputRef) :
    (graph.modifyNode consumer.node fun node =>
        { node with inputs := node.inputs.set consumer.input source }) =
      graph.mapNodes (Node.repoint (movedSource source [consumer])) := by
  rw [modifyNode_eq_mapNodes]
  apply mapNodes_congr
  intro id node _
  by_cases place : id = consumer.node
  · rw [if_pos place, Node.repoint]
    congr 1
    apply List.ext_getElem?
    intro input
    rw [List.getElem?_set, List.getElem?_mapIdx]
    have same : (⟨id, input⟩ : Consumer) ∈ [consumer] ↔ consumer.input = input := by
      rw [List.mem_singleton]
      constructor
      · rintro rfl
        rfl
      · rintro rfl
        exact place ▸ rfl
    by_cases moves : consumer.input = input
    · by_cases inside : input < node.inputs.length <;>
        simp [movedSource, same, moves, inside]
    · simp [movedSource, same, moves]
  · have stays (input : Nat) : (⟨id, input⟩ : Consumer) ∉ [consumer] := by
      rw [List.mem_singleton]
      rintro rfl
      exact place rfl
    rw [if_neg place]
    symm
    apply Node.repoint_eq_self
    intro input source _
    exact if_neg (stays input)

/-- The outcome of moving an edge: the input moves from the value it read. The step
strikes the reader, enters it elsewhere and then turns the input; together that is
one redirection. -/
theorem Linked.rewire_eq {graph : Graph α} (linked : graph.Linked) {consumer : Consumer}
    {previous target : OutputRef} (reads : graph.Reads consumer previous)
    (live : ∃ slot, graph.outputSlot target = some slot) :
    rewire consumer target graph = (.ok previous, graph.redirect previous target [consumer]) := by
  obtain ⟨node, found, listed⟩ := reads
  obtain ⟨slot, produced⟩ := linked.produced consumer previous ⟨node, found, listed⟩
  obtain ⟨targetSlot, targetLive⟩ := live
  have entered : consumer ∈ slot.consumers :=
    (linked.listed previous slot produced consumer).mpr ⟨node, found, listed⟩
  have getting : getNode consumer.node graph = (.ok node, graph) := by
    rw [getNode, nodeAt_of_node found]
  rw [rewire, Attempt.bind_of_ok getting]
  simp only [listed]
  rw [Attempt.bind_of_ok (unlink_eq produced entered)]
  rw [Attempt.bind_of_ok (link_eq (by rw [outputSlot_relist, targetLive]; rfl) consumer)]
  rw [Attempt.update_bind, Attempt.pure_apply, relist_relist, modifyNode_set_input,
    relist_eq_rearrange_sources]
  congr 1
  apply rearrange_congr
  · intro source slot found
    have struck : slot.consumers.erase consumer = slot.consumers.filter (· ∉ [consumer]) := by
      rw [List.Nodup.erase_eq_filter (linked.once source slot found)]
      apply List.filter_congr
      intro reader _
      by_cases same : reader = consumer <;> simp [bne, same]
    unfold movedReaders
    split <;> split <;> simp only [struck, List.append_nil]
  · intro _ _ _
    rfl

/-- The outcome of moving edges in turn from one value to another. The answer undoes the
moves in the order in which they were made. -/
theorem Linked.rewireAll_eq {graph : Graph α} (linked : graph.Linked)
    {previous target : OutputRef} {moved : List Consumer} (distinct : moved.Nodup)
    (reading : ∀ consumer ∈ moved, graph.Reads consumer previous)
    (live : ∃ slot, graph.outputSlot target = some slot) :
    rewireAll (moved.map fun consumer => (consumer, target)) graph =
      (.ok (moved.map fun consumer => (consumer, previous)),
        graph.redirect previous target moved) := by
  induction moved generalizing graph with
  | nil => rw [redirect_nil]; rfl
  | cons first rest inductionHypothesis =>
    obtain ⟨absent, distinctRest⟩ := List.nodup_cons.mp distinct
    have readsFirst : graph.Reads first previous := reading first List.mem_cons_self
    have moving := linked.rewire_eq readsFirst live
    have linkedNext : (graph.redirect previous target [first]).Linked := by
      refine linked.redirect (by simp) ?_ live
      intro consumer member
      exact List.mem_singleton.mp member ▸ readsFirst
    have readingNext : ∀ consumer ∈ rest,
        (graph.redirect previous target [first]).Reads consumer previous := by
      intro consumer member
      apply (reading consumer (List.mem_cons_of_mem first member)).redirect_of_not_mem
      intro same
      exact absent (List.mem_singleton.mp same ▸ member)
    have liveNext : ∃ slot,
        (graph.redirect previous target [first]).outputSlot target = some slot := by
      obtain ⟨slot, found⟩ := live
      exact exists_outputSlot_redirect _ _ _ _ found
    have others := inductionHypothesis linkedNext distinctRest readingNext liveNext
    rw [List.map_cons, rewireAll, Attempt.bind_of_ok moving, Attempt.bind_of_ok others,
      redirect_cons absent]
    rfl

end Graph

end RangeFold
