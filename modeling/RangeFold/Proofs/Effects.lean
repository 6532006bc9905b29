import RangeFold.Proofs.Refusal
import RangeFold.Proofs.Pass.Verdicts

/-!
# What rewiring changes

A successful rewiring is known by what it leaves. The inputs that move read the new value and
stand at the end of its readers, in the order in which they stood before; a node that makes way
is gone from everywhere. All else is as it was: places, names, kinds, attributes, the other
inputs and the other lists of readers. Types can change only downstream of the inputs that have
moved, however far the propagation has to go.

Lists of readers may have much in common: the new value can be one that the old node itself
reads, and one node can read the old value several times. The statements below are about lists,
so they say what happens there as well.
-/

namespace RangeFold

open Relation

variable {α : Type}

namespace Graph

/-- What is left of a graph when inputs have come to read one value instead of another and some
nodes have gone. -/
structure Rewired (graph after : Graph α) (previous target : OutputRef) (moved : List Consumer)
    (gone : List NodeId) : Prop where
  /-- The places of the others are taken as before. -/
  places : ∀ id, (∃ left, after.node id = some left) ↔
    (∃ node, graph.node id = some node) ∧ id ∉ gone
  /-- What a node is does not change. -/
  kept : ∀ id node left, graph.node id = some node → after.node id = some left →
    left.kind = node.kind ∧ left.name = node.name ∧ left.attributes = node.attributes ∧
      left.inputs.length = node.inputs.length ∧ left.outputs.length = node.outputs.length
  /-- The inputs that move read the new value. -/
  moves : ∀ consumer ∈ moved, after.Reads consumer target
  /-- All others read what they read. -/
  stays : ∀ consumer source, consumer ∉ moved →
    (after.Reads consumer source ↔ graph.Reads consumer source ∧ consumer.node ∉ gone)
  /-- The new value has the moved readers last. -/
  arrivals : after.consumers target =
    ((graph.consumers target).filter fun reader => reader ∉ moved ∧ reader.node ∉ gone) ++ moved
  /-- Every other value has lost them, and the readers that are gone. -/
  departures : ∀ source, source ≠ target → source.node ∉ gone → after.consumers source =
    (graph.consumers source).filter fun reader => reader ∉ moved ∧ reader.node ∉ gone
  /-- A value that none of these read keeps its readers as they are. -/
  others : ∀ source, source ≠ target → source ≠ previous → source.node ∉ gone →
    (∀ reader ∈ gone, ∀ input, ¬ graph.Reads ⟨reader, input⟩ source) →
      after.consumers source = graph.consumers source
  names : after.names = graph.names.filter fun entry => entry.2 ∉ gone
  parameters : after.parameters = graph.parameters.filter (· ∉ gone)
  results : after.results = graph.results.filter (· ∉ gone)
  /-- Types change only where a moved input leads to. -/
  types : ∀ id node left, graph.node id = some node → after.node id = some left →
    left.outputTypes ≠ node.outputTypes →
      ∃ consumer ∈ moved, ReflTransGen graph.Feeds consumer.node id

section Frame

variable {graph : Graph α} {previous target : OutputRef} {moved : List Consumer}

/-- The consumers of a source are those recorded in its slot, and none where there
is no slot. -/
theorem consumers_eq (graph : Graph α) (source : OutputRef) :
    graph.consumers source = ((graph.outputSlot source).map OutputSlot.consumers).getD [] := by
  unfold Graph.consumers Graph.outputSlot
  cases (graph.node source.node).bind fun node => node.outputs[source.slot]? <;> rfl

/-- The new edges start at a value to which no moved reader leads, so nothing new can be reached
from those. -/
theorem Redirectable.path_of_redirect (redirectable : graph.Redirectable previous target moved)
    {consumer : Consumer} (moves : consumer ∈ moved) {goal : NodeId}
    (path : ReflTransGen (graph.redirect previous target moved).Feeds consumer.node goal) :
    ReflTransGen graph.Feeds consumer.node goal := by
  induction path with
  | refl => exact .refl
  | tail _ step inductionHypothesis =>
    rcases Feeds.of_redirect step with old | ⟨rfl, -⟩
    · exact inductionHypothesis.tail old
    · exact absurd inductionHypothesis (redirectable.apart consumer moves)

/-- A propagation does not touch what its starts do not lead to. Types are written
where a visit leads, and visits follow the edges. -/
theorem Propagates.unreached [Arithmetic α] (linked : graph.Linked) {types final : TypeAssignment}
    {waiting : List NodeId} (propagates : graph.Propagates types waiting final) {id : NodeId}
    (apart : ∀ start ∈ waiting, ¬ ReflTransGen graph.Feeds start id) : final id = types id := by
  induction propagates with
  | done types => rfl
  | same _ _ _ inductionHypothesis =>
    exact inductionHypothesis fun start waits => apart start (List.mem_cons_of_mem _ waits)
  | @changed types middle final place node waiting new live typed other _ _ fromReaders fromRest =>
    have elsewhere : id ≠ place := by
      rintro rfl
      exact apart id List.mem_cons_self .refl
    have readers : ∀ reader ∈ (graph.readers place).reverse,
        ¬ ReflTransGen graph.Feeds reader id := by
      intro reader listed path
      have feeds := linked.mem_readers_iff.mp (List.mem_reverse.mp listed)
      exact apart place List.mem_cons_self (.head feeds path)
    have rest : ∀ start ∈ waiting, ¬ ReflTransGen graph.Feeds start id :=
      fun start waits => apart start (List.mem_cons_of_mem _ waits)
    rw [fromRest rest, fromReaders readers, Function.update_of_ne elsewhere]

/-- After a rewire the moved consumers stand behind those of the target and no
longer among those of the source. Types play no part in it. -/
theorem consumers_redirect_retypedBy (live : ∃ slot, graph.outputSlot target = some slot)
    (types : TypeAssignment) (source : OutputRef) :
    ((graph.redirect previous target moved).retypedBy types).consumers source =
      movedReaders previous target moved source (graph.consumers source) := by
  rw [consumers_eq, consumers_eq, outputSlot_retypedBy, outputSlot_redirect]
  cases found : graph.outputSlot source with
  | some slot => rfl
  | none =>
    have other : source ≠ target := by
      rintro rfl
      obtain ⟨slot, present⟩ := live
      cases found.symm.trans present
    simp [movedReaders, other]

/-- When a node is taken out, the other lists of consumers keep their order without
it. -/
theorem consumers_detach {id : NodeId} {name : String} {source : OutputRef}
    (stays : source.node ≠ id) : (graph.detach id name).consumers source =
      (graph.consumers source).filter fun reader => reader.node ≠ id := by
  rw [consumers_eq, consumers_eq, outputSlot_detach stays]
  cases graph.outputSlot source <;> rfl

/-- The readers of a node are the inputs that read one of its values. The same node
may be listed for several of its inputs. -/
theorem Linked.mem_nodeConsumers_iff (linked : graph.Linked) {id : NodeId} {node : Node α}
    (found : graph.node id = some node) {consumer : Consumer} :
    consumer ∈ node.consumers ↔ ∃ slot, graph.Reads consumer ⟨id, slot⟩ := by
  simp only [Node.consumers, List.mem_flatMap]
  constructor
  · rintro ⟨output, among, listed⟩
    obtain ⟨slot, placed⟩ := List.getElem?_of_mem among
    have live : graph.outputSlot ⟨id, slot⟩ = some output :=
      outputSlot_eq_some_iff.mpr ⟨node, found, placed⟩
    exact ⟨slot, (linked.listed _ output live consumer).mp listed⟩
  · rintro ⟨slot, reads⟩
    obtain ⟨output, live⟩ := linked.produced _ _ reads
    obtain ⟨again, foundAgain, placed⟩ := outputSlot_eq_some_iff.mp live
    obtain rfl := Option.some.inj (found.symm.trans foundAgain)
    exact ⟨output, List.mem_of_getElem? placed, (linked.listed _ output live consumer).mpr reads⟩

/-- The readers listed at a value are those that read it. Either side of an edge may
be asked for it. -/
theorem Linked.mem_consumers_iff (linked : graph.Linked) {consumer : Consumer}
    {source : OutputRef} : consumer ∈ graph.consumers source ↔ graph.Reads consumer source := by
  rw [consumers_eq]
  cases found : graph.outputSlot source with
  | some slot => exact linked.listed source slot found consumer
  | none =>
    refine iff_of_false List.not_mem_nil fun reads => ?_
    obtain ⟨slot, live⟩ := linked.produced consumer source reads
    cases found.symm.trans live

/-- The moved readers leave every list in which they stood and come last in one.
Those who stay keep their order everywhere. -/
theorem Redirectable.consumers_eq (redirectable : graph.Redirectable previous target moved)
    (linked : graph.Linked) (types : TypeAssignment) (source : OutputRef) :
    ((graph.redirect previous target moved).retypedBy types).consumers source =
      ((graph.consumers source).filter fun reader => reader ∉ moved) ++
        if source = target then moved else [] := by
  rw [consumers_redirect_retypedBy redirectable.live, movedReaders]
  congr 1
  split
  · rfl
  · rename_i other
    symm
    rw [List.filter_eq_self]
    intro reader listed
    have reads := linked.mem_consumers_iff.mp listed
    exact decide_eq_true fun moves => other (reads.unique (redirectable.reading reader moves))

variable [Arithmetic α]

/-- Inputs that have moved, with the types propagated from them. Nodes off the way
keep their types. -/
theorem Redirectable.rewired (redirectable : graph.Redirectable previous target moved)
    (sound : graph.Sound) {seeds : List NodeId} (covers : Covers seeds moved)
    {types : TypeAssignment}
    (propagates : (graph.redirect previous target moved).Propagates graph.storedTypes
      seeds.reverse types) :
    graph.Rewired ((graph.redirect previous target moved).retypedBy types) previous target moved
      [] where
  places id := by
    rw [node_redirect_retypedBy]
    cases graph.node id <;> simp
  kept id node left found leaves := by
    rw [node_redirect_retypedBy, found] at leaves
    obtain rfl := Option.some.inj leaves
    simp [Node.retyped, Node.repoint, Node.relist]
  moves consumer moves :=
    reads_retypedBy.mpr ((redirectable.reading consumer moves).redirect_of_mem moves)
  stays consumer source still := by
    rw [reads_retypedBy, reads_redirect_iff]
    simp [movedSource, still]
  arrivals := by simp [redirectable.consumers_eq sound.linked]
  departures source other _ := by simp [redirectable.consumers_eq sound.linked, other]
  others source other unread _ _ := by
    simp [consumers_redirect_retypedBy redirectable.live, movedReaders, other, unread]
  names := by simp [retypedBy, redirect, rearrange, mapNodes]
  parameters := by simp [retypedBy, redirect, rearrange, mapNodes]
  results := by simp [retypedBy, redirect, rearrange, mapNodes]
  types id node left found leaves changed := by
    by_contra unreached
    have linked := redirectable.linked sound.linked
    have single : (graph.redirect previous target moved).Single := sound.fresh.single.redirect
    have untouched : types id = graph.storedTypes id := by
      refine propagates.unreached linked fun start waits path => ?_
      obtain ⟨consumer, moves, rfl⟩ := (covers start).mp (List.mem_reverse.mp waits)
      exact unreached ⟨consumer, moves, redirectable.path_of_redirect moves path⟩
    have sized : (graph.redirect previous target moved).Sized types := by
      refine propagates.sized single ?_
      rw [← storedTypes_redirect]
      exact fun _ => rfl
    have stored := congrFun (storedTypes_retypedBy sized) id
    rw [storedTypes_of_node leaves, untouched, storedTypes_of_node found] at stored
    exact changed stored

omit [Arithmetic α] in
/-- A name belongs to a node exactly if that node has it in the index. Dropping the
entries of a name and those of an id is the same. -/
theorem Indexed.name_eq_iff (indexed : graph.Indexed) {id : NodeId} {node : Node α}
    (found : graph.node id = some node) {entry : String × NodeId} (listed : entry ∈ graph.names) :
    entry.1 = node.name ↔ entry.2 = id := by
  obtain ⟨name, other⟩ := entry
  constructor
  · rintro rfl
    exact indexed.name_unique listed ((indexed.names node.name id).mpr ⟨node, found, rfl⟩)
  · rintro rfl
    obtain ⟨again, foundAgain, rfl⟩ := (indexed.names name other).mp listed
    rw [Option.some.inj (foundAgain.symm.trans found)]

/-- Another node goes, which is not one of those whose inputs have moved. All that
it takes with it are its own readings. -/
theorem Rewired.detach {after : Graph α} {id : NodeId} {node : Node α}
    (rewired : graph.Rewired after previous target moved []) (sound : graph.Sound)
    (found : graph.node id = some node) (other : target.node ≠ id)
    (apart : ∀ consumer ∈ moved, consumer.node ≠ id) :
    graph.Rewired (after.detach id node.name) previous target moved [id] where
  places place := by
    have before := rewired.places place
    rw [node_detach]
    by_cases gone : place = id <;> simp_all
  kept place old left foundOld leaves := by
    rw [node_detach] at leaves
    split at leaves
    · cases leaves
    · obtain ⟨middle, foundMiddle, rfl⟩ := Option.map_eq_some_iff.mp leaves
      simpa [Node.relist] using rewired.kept place old middle foundOld foundMiddle
  moves consumer moves := reads_detach_iff.mpr ⟨rewired.moves consumer moves, apart consumer moves⟩
  stays consumer source still := by
    rw [reads_detach_iff, rewired.stays consumer source still]
    simp
  arrivals := by
    have kept : moved.filter (fun reader => reader.node ≠ id) = moved :=
      List.filter_eq_self.mpr fun reader moves => decide_eq_true (apart reader moves)
    rw [consumers_detach other, rewired.arrivals, List.filter_append, kept, List.filter_filter]
    simp [and_comm]
  departures source elsewhere stays := by
    rw [consumers_detach (by simpa using stays),
      rewired.departures source elsewhere List.not_mem_nil, List.filter_filter]
    simp [and_comm]
  others source elsewhere unread stays unfed := by
    have same := rewired.others source elsewhere unread List.not_mem_nil
      fun reader listed => absurd listed List.not_mem_nil
    rw [consumers_detach (by simpa using stays), same, List.filter_eq_self]
    intro reader listed
    refine decide_eq_true fun gone => ?_
    have reads := sound.linked.mem_consumers_iff.mp listed
    exact unfed id List.mem_cons_self reader.input (gone ▸ reads)
  names := by
    show after.names.filter (fun entry => entry.1 ≠ node.name) = _
    rw [rewired.names, List.filter_filter]
    refine List.filter_congr fun entry listed => ?_
    simp [sound.indexed.name_eq_iff found listed]
  parameters := by
    rw [parameters_detach, rewired.parameters, List.filter_filter]
    simp
  results := by
    rw [results_detach, rewired.results, List.filter_filter]
    simp
  types place old left foundOld leaves changed := by
    rw [node_detach] at leaves
    split at leaves
    · cases leaves
    · obtain ⟨middle, foundMiddle, rfl⟩ := Option.map_eq_some_iff.mp leaves
      rw [Node.relist_outputTypes] at changed
      exact rewired.types place old middle foundOld foundMiddle changed

end Frame

section Effects

variable [Arithmetic α] {graph : Graph α}

/-- A successful change of an input rewires that one input, away from what it read
before. -/
theorem Sound.rewired_setInput (sound : graph.Sound) {id : NodeId} {input : Nat}
    {source : OutputRef} {after : Graph α}
    (done : setInput id input source graph = (.ok (), after)) :
    ∃ previous, graph.Reads ⟨id, input⟩ previous ∧
      graph.Rewired after previous source [⟨id, input⟩] [] := by
  by_cases ready : ∃ previous, graph.Redirectable previous source [⟨id, input⟩]
  · obtain ⟨previous, redirectable⟩ := ready
    refine ⟨previous, redirectable.reading _ List.mem_cons_self, ?_⟩
    rcases sound.setInput_cases redirectable with ⟨types, propagates, stored, -⟩ | ⟨-, _, failed⟩
    · obtain rfl := (Prod.mk.inj (stored.symm.trans done)).2
      have covers : Covers [id] [⟨id, input⟩] := fun place => by simp [eq_comm]
      exact redirectable.rewired sound covers propagates
    · cases failed.symm.trans done
  · obtain ⟨_, failed⟩ := sound.linked.setInput_refused fun previous redirectable =>
      ready ⟨previous, redirectable⟩
    cases failed.symm.trans done

/-- The nodes that a replacement takes out. An entry stays. -/
def outgoing (id : NodeId) (node : Node α) : List NodeId :=
  if node.kind = .parameter then [] else [id]

/-- A successful replacement rewires every consumer of the node and removes the node
unless it is a parameter. -/
theorem Sound.rewired_replaceNode (sound : graph.Sound) {id : NodeId} {target : OutputRef}
    {after : Graph α} (done : replaceNode id [target] graph = (.ok (), after)) :
    ∃ node, graph.Replaceable id node target ∧
      graph.Rewired after ⟨id, 0⟩ target node.consumers (outgoing id node) := by
  by_cases ready : ∃ node, graph.Replaceable id node target
  · obtain ⟨node, replaceable⟩ := ready
    refine ⟨node, replaceable, ?_⟩
    rcases sound.replaceNode_cases replaceable with ⟨types, propagates, stored, -⟩ | ⟨-, _, failed⟩
    · obtain rfl := (Prod.mk.inj (stored.symm.trans done)).2
      have rewired := replaceable.redirectable.rewired sound (fun _ => List.mem_map) propagates
      unfold replaced outgoing
      by_cases entry : node.kind = .parameter
      · simpa [entry] using rewired
      · have apart : ∀ consumer ∈ node.consumers, consumer.node ≠ id := by
          intro consumer moves same
          have reads := replaceable.redirectable.reading consumer moves
          exact sound.acyclic id (.single ⟨consumer.input, 0, same ▸ reads⟩)
        simpa [entry] using rewired.detach sound replaceable.found replaceable.other apart
    · cases failed.symm.trans done
  · have closed (node : Node α) (value : OutputRef) (same : [target] = [value])
        (replaceable : graph.Replaceable id node value) : False := by
      obtain rfl := List.singleton_inj.mp same
      exact ready ⟨node, replaceable⟩
    obtain ⟨_, failed⟩ := sound.replaceNode_refused closed
    cases failed.symm.trans done

/-- A node that has made way has no readers left: as an entry it stays, otherwise it
is gone. It cannot have kept one, as all its readers have moved. -/
theorem Rewired.left_behind {id : NodeId} {node : Node α} {target : OutputRef} {after : Graph α}
    (rewired : graph.Rewired after ⟨id, 0⟩ target node.consumers (outgoing id node))
    (sound : graph.Sound) (soundAfter : after.Sound) (found : graph.node id = some node)
    (other : target.node ≠ id) :
    (node.kind = .parameter → ∃ left, after.node id = some left ∧ left.consumers = []) ∧
    (node.kind ≠ .parameter → after.node id = none ∧ after.findName node.name = none ∧
      ∀ source, ∀ reader ∈ after.consumers source, reader.node ≠ id) := by
  constructor
  · intro entry
    obtain ⟨left, leaves⟩ := (rewired.places id).mpr ⟨⟨node, found⟩, by simp [outgoing, entry]⟩
    refine ⟨left, leaves, List.eq_nil_iff_forall_not_mem.mpr fun consumer listed => ?_⟩
    obtain ⟨slot, reads⟩ := (soundAfter.linked.mem_nodeConsumers_iff leaves).mp listed
    by_cases moved : consumer ∈ node.consumers
    · exact other (congrArg OutputRef.node ((rewired.moves consumer moved).unique reads))
    · have readsBefore := ((rewired.stays consumer _ moved).mp reads).1
      exact moved ((sound.linked.mem_nodeConsumers_iff found).mpr ⟨slot, readsBefore⟩)
  · intro inner
    have gone : id ∈ outgoing id node := by simp [outgoing, inner]
    have absent : ∀ left, after.node id ≠ some left := fun left leaves =>
      ((rewired.places id).mp ⟨left, leaves⟩).2 gone
    refine ⟨Option.eq_none_iff_forall_ne_some.mpr absent, ?_, ?_⟩
    · rw [findName_eq_none_iff]
      intro place listed
      rw [rewired.names, List.mem_filter] at listed
      obtain ⟨entered, stays⟩ := listed
      have same : place = id := (sound.indexed.name_eq_iff found entered).mp rfl
      exact of_decide_eq_true stays (same ▸ gone)
    · rintro source reader listed rfl
      obtain ⟨left, leaves, -⟩ := soundAfter.linked.mem_consumers_iff.mp listed
      exact absent left leaves

/-- The new value's own readers stay in place, but for those that the old node had
itself. Behind them come the readers of the old node, in their order. -/
theorem Rewired.arrivals_eq {id : NodeId} {node : Node α} {target : OutputRef} {after : Graph α}
    (rewired : graph.Rewired after ⟨id, 0⟩ target node.consumers (outgoing id node))
    (sound : graph.Sound) (found : graph.node id = some node) (other : target.node ≠ id) :
    after.consumers target =
      ((graph.consumers target).filter fun reader => reader.node ≠ id) ++ node.consumers := by
  rw [rewired.arrivals]
  congr 1
  refine List.filter_congr fun reader listed => ?_
  have reads := sound.linked.mem_consumers_iff.mp listed
  have unmoved : reader ∉ node.consumers := by
    intro moves
    obtain ⟨slot, readsOld⟩ := (sound.linked.mem_nodeConsumers_iff found).mp moves
    exact other (congrArg OutputRef.node (reads.unique readsOld))
  have entryReads : reader.node = id → node.kind ≠ .parameter := by
    rintro rfl
    obtain ⟨again, foundAgain, placed⟩ := reads
    obtain rfl := Option.some.inj (found.symm.trans foundAgain)
    exact sound.not_parameter_of_reads found (List.mem_of_getElem? placed)
  by_cases entry : node.kind = .parameter
  · have elsewhere : reader.node ≠ id := fun own => entryReads own entry
    simp [unmoved, outgoing, entry, elsewhere]
  · simp [unmoved, outgoing, entry]

/-- What a successful rewiring leaves. All inputs that read a replaced node read the new value;
they come after the readers that the value had before, of which those of the replaced node are
gone. A single input that is set comes last among the readers of its new value and is listed
nowhere else. -/
theorem rewiring_effects (reachable : graph.Reachable) :
    (∀ id target after, replaceNode id [target] graph = (.ok (), after) →
      ∃ node, graph.node id = some node ∧
        graph.Rewired after ⟨id, 0⟩ target node.consumers (outgoing id node) ∧
        (∀ consumer slot, graph.Reads consumer ⟨id, slot⟩ → after.Reads consumer target) ∧
        after.consumers target =
          ((graph.consumers target).filter fun reader => reader.node ≠ id) ++ node.consumers ∧
        (node.kind = .parameter → ∃ left, after.node id = some left ∧ left.consumers = []) ∧
        (node.kind ≠ .parameter → after.node id = none ∧ after.findName node.name = none ∧
          ∀ source, ∀ reader ∈ after.consumers source, reader.node ≠ id)) ∧
    (∀ id input source after, setInput id input source graph = (.ok (), after) →
      ∃ previous, graph.Reads ⟨id, input⟩ previous ∧
        graph.Rewired after previous source [⟨id, input⟩] [] ∧
        (after.consumers source).getLast? = some ⟨id, input⟩ ∧
        ∀ value, value ≠ source → ⟨id, input⟩ ∉ after.consumers value) := by
  have sound := reachable.sound
  constructor
  · intro id target after done
    obtain ⟨node, replaceable, rewired⟩ := sound.rewired_replaceNode done
    have found := replaceable.found
    have soundAfter : after.Sound := by
      have kept := keeps_replaceNode id [target] graph sound
      rwa [done] at kept
    refine ⟨node, found, rewired, ?_, rewired.arrivals_eq sound found replaceable.other,
      rewired.left_behind sound soundAfter found replaceable.other⟩
    intro consumer slot reads
    exact rewired.moves consumer ((sound.linked.mem_nodeConsumers_iff found).mpr ⟨slot, reads⟩)
  · intro id input source after done
    obtain ⟨previous, reads, rewired⟩ := sound.rewired_setInput done
    have soundAfter : after.Sound := by
      have kept := keeps_setInput id input source graph sound
      rwa [done] at kept
    refine ⟨previous, reads, rewired, ?_, ?_⟩
    · rw [rewired.arrivals, List.getLast?_concat]
    · intro value other listed
      have moved := rewired.moves _ List.mem_cons_self
      exact other ((soundAfter.linked.mem_consumers_iff.mp listed).unique moved)

/-- A chain whose second rectifier feeds both sides of a sum, with another reader of the first. -/
def branchedSession : List (Call Rat) :=
  [.add .parameter "x" [] (vectorEntry 2),
    .add .parameter "y" [] (vectorEntry 2),
    .add .relu "first" [⟨0, 0⟩] Attributes.empty,
    .add .relu "second" [⟨2, 0⟩] Attributes.empty,
    .add .add "sum" [⟨3, 0⟩, ⟨3, 0⟩] Attributes.empty,
    .add .identity "side" [⟨2, 0⟩] Attributes.empty]

/-- The graph that the session builds. -/
def branched : Graph Rat := Call.performAll branchedSession empty

/-- The second rectifier makes way for the value it reads itself, the first entry for the other
one, and an input moves between them. -/
theorem branched_rewired :
    branched.Reachable ∧
    (∃ after, replaceNode 3 [⟨2, 0⟩] branched = (.ok (), after) ∧
      after.consumers ⟨2, 0⟩ = [⟨5, 0⟩, ⟨4, 0⟩, ⟨4, 1⟩] ∧ after.node 3 = none) ∧
    (∃ after, replaceNode 0 [⟨1, 0⟩] branched = (.ok (), after) ∧
      after.Reads ⟨2, 0⟩ ⟨1, 0⟩ ∧ ∃ left, after.node 0 = some left ∧ left.consumers = []) ∧
    ∃ after, setInput 5 0 ⟨3, 0⟩ branched = (.ok (), after) ∧
      (after.consumers ⟨3, 0⟩).getLast? = some ⟨5, 0⟩ ∧ ⟨5, 0⟩ ∉ after.consumers ⟨2, 0⟩ := by
  have reachable : branched.Reachable := ⟨branchedSession, rfl⟩
  obtain ⟨replacements, settings⟩ := rewiring_effects reachable
  obtain ⟨short, shortened⟩ := Attempt.succeeds_iff.mpr
    (by decide +kernel : (replaceNode 3 [⟨2, 0⟩] branched).1.isOk = true)
  obtain ⟨other, exchanged⟩ := Attempt.succeeds_iff.mpr
    (by decide +kernel : (replaceNode 0 [⟨1, 0⟩] branched).1.isOk = true)
  obtain ⟨late, set⟩ := Attempt.succeeds_iff.mpr
    (by decide +kernel : (setInput 5 0 ⟨3, 0⟩ branched).1.isOk = true)
  refine ⟨reachable, ⟨short, shortened, ?_⟩, ⟨other, exchanged, ?_⟩, late, set, ?_⟩
  · obtain ⟨node, found, -, -, arrivals, -, gone⟩ := replacements 3 ⟨2, 0⟩ short shortened
    have described := congrArg (Option.map fun node => (node.kind, node.consumers)) found
    rw [(by decide +kernel : (branched.node 3).map (fun node => (node.kind, node.consumers)) =
      some (.relu, [⟨4, 0⟩, ⟨4, 1⟩]))] at described
    obtain ⟨kind, readers⟩ := Prod.mk.inj (Option.some.inj described)
    rw [← readers, (by decide +kernel : branched.consumers ⟨2, 0⟩ = [⟨3, 0⟩, ⟨5, 0⟩])] at arrivals
    exact ⟨arrivals, (gone (by simp [← kind])).1⟩
  · obtain ⟨node, found, -, moves, -, stays, -⟩ := replacements 0 ⟨1, 0⟩ other exchanged
    have kind := congrArg (Option.map Node.kind) found
    rw [(by decide +kernel : (branched.node 0).map Node.kind = some .parameter)] at kind
    have reads : branched.Reads ⟨2, 0⟩ ⟨0, 0⟩ :=
      reachable.sound.linked.mem_consumers_iff.mp (by decide +kernel)
    exact ⟨moves ⟨2, 0⟩ 0 reads, stays (Option.some.inj kind).symm⟩
  · obtain ⟨previous, -, -, last, elsewhere⟩ := settings 5 0 ⟨3, 0⟩ late set
    exact ⟨last, elsewhere ⟨2, 0⟩ (by decide)⟩

end Effects

end Graph

end RangeFold
