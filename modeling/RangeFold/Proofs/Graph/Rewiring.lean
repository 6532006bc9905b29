import RangeFold.Proofs.Graph.Removal
import RangeFold.Proofs.Graph.Retyping

/-!
# Rewiring

Pointing an input at another value and replacing a node have one core: some inputs that
read one value come to read another, and the nodes they belong to are typed again. What
the core does is said once. It goes through if the types propagate, and the graph is
sound again afterwards; otherwise the inputs are moved back.

An input that is moved back stands last among the readers of its value, wherever it had
stood before. A replacement moves all readers of a value and so restores their order.
-/

namespace RangeFold

open Relation

variable {α : Type}

namespace Graph

/-- The inputs read one value and may come to read another without closing a cycle. -/
structure Redirectable (graph : Graph α) (previous target : OutputRef) (moved : List Consumer) :
    Prop where
  distinct : moved.Nodup
  reading : ∀ consumer ∈ moved, graph.Reads consumer previous
  live : ∃ slot, graph.outputSlot target = some slot
  apart : ∀ consumer ∈ moved, ¬ ReflTransGen graph.Feeds consumer.node target.node

section Redirect

variable {graph : Graph α} {previous target : OutputRef} {moved : List Consumer}

/-- Whether inputs may be moved can be checked. The search for dependents decides
the condition about cycles. -/
theorem Linked.redirectable_iff (linked : graph.Linked) :
    graph.Redirectable previous target moved ↔
      moved.Nodup ∧ (∀ consumer ∈ moved, graph.Reads consumer previous) ∧
        (graph.outputSlot target).isSome ∧
          ∀ consumer ∈ moved, ¬ graph.reaches consumer.node target.node := by
  simp only [linked.reaches_iff, Option.isSome_iff_exists]
  exact ⟨fun ⟨distinct, reading, live, apart⟩ => ⟨distinct, reading, live, apart⟩,
    fun ⟨distinct, reading, live, apart⟩ => ⟨distinct, reading, live, apart⟩⟩

/-- A redirection along recorded edges keeps inputs and reader lists in agreement,
since each moved consumer changes sides in both. -/
theorem Redirectable.linked (redirectable : graph.Redirectable previous target moved)
    (linked : graph.Linked) : (graph.redirect previous target moved).Linked :=
  linked.redirect redirectable.distinct redirectable.reading redirectable.live

/-- A redirection to a target that reaches none of the moved consumers closes no
cycle. -/
theorem Redirectable.acyclic (redirectable : graph.Redirectable previous target moved)
    (acyclic : graph.Acyclic) : (graph.redirect previous target moved).Acyclic :=
  acyclic.redirect redirectable.apart

/-- A redirected node has new inputs where they moved, new readers where they
arrived or left, and everything else as before. -/
theorem node_redirect (id : NodeId) : (graph.redirect previous target moved).node id =
    (graph.node id).map fun node =>
      (node.relist (movedReaders previous target moved) id).repoint
        (movedSource target moved) id :=
  node_mapNodes graph _ id

/-- The node a successful rewire leaves: redirected and then given its new types. -/
theorem node_redirect_retypedBy (types : TypeAssignment) (id : NodeId) :
    ((graph.redirect previous target moved).retypedBy types).node id =
      (graph.node id).map fun node =>
        ((node.relist (movedReaders previous target moved) id).repoint
          (movedSource target moved) id).retyped (types id) := by
  rw [retypedBy, node_mapNodes, node_redirect, Option.map_map]
  rfl

/-- A redirection writes no types. It is the propagation afterwards that does. -/
theorem storedTypes_redirect :
    (graph.redirect previous target moved).storedTypes = graph.storedTypes := by
  funext id
  simp only [storedTypes, node_redirect]
  cases graph.node id <;> simp

/-- A redirection keeps one output to every node. -/
theorem Single.redirect (single : graph.Single) :
    (graph.redirect previous target moved).Single := by
  intro id node found
  rw [node_redirect] at found
  obtain ⟨old, foundOld, rfl⟩ := Option.map_eq_some_iff.mp found
  simpa [Node.relist] using single id old foundOld

/-- A node none of whose inputs has moved is typed as before. It still reads the
same values, whose types have not changed. -/
theorem Fresh.consistent_redirect [Arithmetic α] (fresh : graph.Fresh) {id : NodeId}
    (stays : ∀ consumer ∈ moved, consumer.node ≠ id) :
    (graph.redirect previous target moved).Consistent graph.storedTypes id := by
  intro node found
  rw [node_redirect] at found
  obtain ⟨old, foundOld, rfl⟩ := Option.map_eq_some_iff.mp found
  rw [Node.repoint_eq_self]
  · exact fresh_iff_consistent.mp fresh id old foundOld
  · intro input source _
    apply if_neg
    intro moves
    exact stays _ moves rfl

/-- Where the new value has the type of the old one, every node is typed as before.
No propagation is needed in this case. -/
theorem Sound.redirect [Arithmetic α] (sound : graph.Sound)
    (redirectable : graph.Redirectable previous target moved)
    (typed : graph.outputType target = graph.outputType previous) :
    (graph.redirect previous target moved).Sound where
  linked := redirectable.linked sound.linked
  indexed := sound.indexed.redirect previous target moved
  acyclic := redirectable.acyclic sound.acyclic
  fresh id node found := by
    rw [node_redirect] at found
    obtain ⟨old, foundOld, rfl⟩ := Option.map_eq_some_iff.mp found
    obtain ⟨inputs, known, inferred⟩ := sound.fresh id old foundOld
    have same := map_repoint_inputs typed redirectable.reading foundOld
    rw [outputType_redirect, Node.repoint_outputTypes, Node.relist_outputTypes]
    exact ⟨inputs, same.trans known, inferred⟩

/-- The nodes to be typed again, those whose inputs have moved. -/
def Covers (seeds : List NodeId) (moved : List Consumer) : Prop :=
  ∀ id, id ∈ seeds ↔ ∃ consumer ∈ moved, consumer.node = id

/-- Seeds that cover a move contain every node one of whose inputs moved. -/
theorem Covers.seeded {seeds : List NodeId} (covers : Covers seeds moved) :
    ∀ consumer ∈ moved, consumer.node ∈ seeds :=
  fun consumer moves => (covers _).mpr ⟨consumer, moves, rfl⟩

/-- Types that propagate from the moved inputs, and perhaps from others, follow from one another
at all nodes. -/
theorem Sound.consistent_redirect [Arithmetic α] (sound : graph.Sound)
    (redirectable : graph.Redirectable previous target moved) {seeds : List NodeId}
    (seeded : ∀ consumer ∈ moved, consumer.node ∈ seeds) {types : TypeAssignment}
    (propagates : (graph.redirect previous target moved).Propagates graph.storedTypes
      seeds.reverse types) (id : NodeId) :
    (graph.redirect previous target moved).Consistent types id := by
  apply propagates.consistent_all (redirectable.linked sound.linked)
  intro other unseeded
  apply sound.fresh.consistent_redirect
  rintro consumer moves rfl
  exact unseeded (List.mem_reverse.mpr (seeded consumer moves))

/-- The nodes to be typed again are live. They read something, namely the value that
their inputs moved away from. -/
theorem Redirectable.exists_node (redirectable : graph.Redirectable previous target moved)
    {seeds : List NodeId} (covers : Covers seeds moved) {id : NodeId} (seeded : id ∈ seeds) :
    ∃ node, (graph.redirect previous target moved).node id = some node := by
  obtain ⟨consumer, moves, rfl⟩ := (covers id).mp seeded
  obtain ⟨node, found, _⟩ := redirectable.reading consumer moves
  rw [node_redirect, found]
  exact ⟨_, rfl⟩

/-- Edges moved without closing a cycle leave nothing amiss but the types of the nodes
they lead to. If a propagation from those exists, it is stored and the graph is sound
again; otherwise nothing is stored. -/
theorem Sound.retype_redirect [Arithmetic α] (sound : graph.Sound)
    (redirectable : graph.Redirectable previous target moved) {seeds : List NodeId}
    (covers : Covers seeds moved) :
    (∃ types, (graph.redirect previous target moved).Propagates graph.storedTypes
        seeds.reverse types ∧
      retype seeds (graph.redirect previous target moved) =
        (.ok (), (graph.redirect previous target moved).retypedBy types) ∧
      ((graph.redirect previous target moved).retypedBy types).Sound) ∨
    ((∀ types, ¬ (graph.redirect previous target moved).Propagates graph.storedTypes
        seeds.reverse types) ∧
      ∃ failure, retype seeds (graph.redirect previous target moved) =
        (.error failure, graph.redirect previous target moved)) := by
  have linked := redirectable.linked sound.linked
  have acyclic := redirectable.acyclic sound.acyclic
  have single : (graph.redirect previous target moved).Single := sound.fresh.single.redirect
  by_cases exists_types : ∃ types, (graph.redirect previous target moved).Propagates
      graph.storedTypes seeds.reverse types
  · left
    obtain ⟨types, propagates⟩ := exists_types
    have settled := sound.consistent_redirect redirectable covers.seeded propagates
    rw [← storedTypes_redirect] at propagates
    have stored := retype_of_propagates linked acyclic single propagates
    have sized := propagates.sized single fun _ => rfl
    refine ⟨types, storedTypes_redirect ▸ propagates, stored, linked.retypedBy types,
      (sound.indexed.redirect previous target moved).retypedBy types, acyclic.retypedBy types, ?_⟩
    exact fresh_retypedBy sized settled
  · right
    have absent : ∀ types, ¬ (graph.redirect previous target moved).Propagates graph.storedTypes
        seeds.reverse types := fun types propagates => exists_types ⟨types, propagates⟩
    refine ⟨absent, ?_⟩
    rcases outcome : retype seeds (graph.redirect previous target moved) with ⟨_ | _, after⟩
    · rename_i failure
      rw [retype_failed outcome]
      exact ⟨failure, rfl⟩
    · obtain ⟨types, propagates, _⟩ := propagates_of_retype outcome
      exact absurd (storedTypes_redirect ▸ propagates) (absent types)

end Redirect

section SetInput

variable [Arithmetic α] {graph : Graph α} {id : NodeId} {input : Nat} {source : OutputRef}

/-- Without an input of a live node, a live value and a way to connect them without a
cycle, nothing is changed. -/
theorem Linked.setInput_refused (linked : graph.Linked)
    (closed : ∀ previous, ¬ graph.Redirectable previous source [⟨id, input⟩]) :
    ∃ failure, setInput id input source graph = (.error failure, graph) := by
  cases found : graph.node id with
  | none =>
    have missing := getNode_of_none found
    exact ⟨_, by rw [setInput, Attempt.read_bind, Attempt.bind_of_error missing]⟩
  | some node =>
    have getting := getNode_of_node found
    by_cases outside : node.inputs.length ≤ input
    · exact ⟨.invalidNode (.missingInput node.name node.inputs.length input), by
        rw [setInput, Attempt.read_bind, Attempt.bind_of_ok getting, if_pos outside]
        rfl⟩
    · cases typed : graph.typesOf node.name [source] with
      | error failure =>
        exact ⟨failure, by
          rw [setInput, Attempt.read_bind, Attempt.bind_of_ok getting, if_neg outside,
            Attempt.lift_bind_of_error typed]⟩
      | ok types =>
        by_cases cycle : graph.reaches id source.node = true
        · exact ⟨.typing node.name (.inputCycle input source), by
            rw [setInput, Attempt.read_bind, Attempt.bind_of_ok getting, if_neg outside,
              Attempt.lift_bind_of_ok typed, if_pos cycle]
            rfl⟩
        · have inside : input < node.inputs.length := Nat.lt_of_not_le outside
          have live : ∃ slot, graph.outputSlot source = some slot :=
            exists_outputSlot_of_typesOf typed List.mem_cons_self
          refine absurd ⟨List.nodup_singleton _, ?_, live, ?_⟩ (closed node.inputs[input])
          · intro consumer moves
            rw [List.mem_singleton.mp moves]
            exact ⟨node, found, List.getElem?_eq_getElem inside⟩
          · intro consumer moves path
            rw [List.mem_singleton.mp moves] at path
            exact cycle (linked.reaches_iff.mpr path)

/-- Past its checks, setting an input moves the edge and types the node again; if that
fails, the edge is moved back, to the end of the readers of its old value. -/
theorem Linked.setInput_eq (linked : graph.Linked) {previous : OutputRef}
    (redirectable : graph.Redirectable previous source [⟨id, input⟩]) :
    setInput id input source graph =
      match retype [id] (graph.redirect previous source [⟨id, input⟩]) with
      | (.ok (), after) => (.ok (), after)
      | (.error failure, _) =>
        (.error failure, graph.relist (returnedReaders previous [⟨id, input⟩])) := by
  have reads : graph.Reads ⟨id, input⟩ previous := redirectable.reading _ List.mem_cons_self
  obtain ⟨node, found, listed⟩ := redirectable.reading _ List.mem_cons_self
  obtain ⟨slot, live⟩ := redirectable.live
  have getting := getNode_of_node found
  have inside : ¬ node.inputs.length ≤ input :=
    Nat.not_le_of_lt (List.getElem?_eq_some_iff.mp listed).1
  have typed : graph.typesOf node.name [source] = .ok [slot.type] := by
    rw [typesOf_eq_ok_iff, List.map_singleton, outputType_eq_map, live]
    rfl
  have acyclic : ¬ graph.reaches id source.node = true := by
    rw [linked.reaches_iff]
    exact redirectable.apart _ List.mem_cons_self
  have moving := linked.rewire_eq reads redirectable.live
  rw [setInput, Attempt.read_bind, Attempt.bind_of_ok getting, if_neg inside,
    Attempt.lift_bind_of_ok typed, if_neg acyclic, Attempt.bind_of_ok moving]
  rcases outcome : retype [id] (graph.redirect previous source [⟨id, input⟩]) with
    ⟨failure | _, after⟩
  · obtain rfl := retype_failed outcome
    have linkedMoved := redirectable.linked linked
    have readsBack : (graph.redirect previous source [⟨id, input⟩]).Reads ⟨id, input⟩ source :=
      reads.redirect_of_mem (List.mem_singleton_self _)
    obtain ⟨old, liveOld⟩ := linked.produced _ _ reads
    have back := linkedMoved.rewire_eq readsBack (exists_outputSlot_redirect _ _ _ _ liveOld)
    rw [Attempt.orElse_of_error outcome, Attempt.bind_of_ok back,
      redirect_back linked redirectable.reading]
    rfl
  · rw [Attempt.orElse_of_ok outcome]

/-- Setting an input either gives a sound graph or moves the edge and back. Which of
the two is decided by the propagation alone, since the checks have passed. -/
theorem Sound.setInput_cases (sound : graph.Sound) {previous : OutputRef}
    (redirectable : graph.Redirectable previous source [⟨id, input⟩]) :
    (∃ types, (graph.redirect previous source [⟨id, input⟩]).Propagates graph.storedTypes
        [id] types ∧
      setInput id input source graph =
        (.ok (), (graph.redirect previous source [⟨id, input⟩]).retypedBy types) ∧
      ((graph.redirect previous source [⟨id, input⟩]).retypedBy types).Sound) ∨
    ((∀ types, ¬ (graph.redirect previous source [⟨id, input⟩]).Propagates graph.storedTypes
        [id] types) ∧
      ∃ failure, setInput id input source graph =
        (.error failure, graph.relist (returnedReaders previous [⟨id, input⟩]))) := by
  have covers : Covers [id] [⟨id, input⟩] := fun place => by simp [eq_comm]
  rw [sound.linked.setInput_eq redirectable]
  rcases sound.retype_redirect redirectable covers with
    ⟨types, propagates, stored, soundAfter⟩ | ⟨absent, failure, failed⟩
  · exact Or.inl ⟨types, propagates, by rw [stored], soundAfter⟩
  · exact Or.inr ⟨absent, failure, by rw [failed]⟩

/-- Lists of readers in another order are as good. No invariant looks at their
order. -/
theorem Sound.relist_perm (sound : graph.Sound)
    {change : OutputRef → List Consumer → List Consumer}
    (reordered : ∀ source slot, graph.outputSlot source = some slot →
      (change source slot.consumers).Perm slot.consumers) : (graph.relist change).Sound where
  linked := {
    produced := fun consumer source reads => by
      obtain ⟨slot, found⟩ :=
        sound.linked.produced consumer source ((graph.reads_relist change).mp reads)
      exact ⟨_, by rw [outputSlot_relist, found]; rfl⟩
    once := fun source slot found => by
      rw [outputSlot_relist] at found
      obtain ⟨old, foundOld, rfl⟩ := Option.map_eq_some_iff.mp found
      exact (reordered source old foundOld).nodup_iff.mpr (sound.linked.once source old foundOld)
    listed := fun source slot found consumer => by
      rw [outputSlot_relist] at found
      obtain ⟨old, foundOld, rfl⟩ := Option.map_eq_some_iff.mp found
      rw [reads_relist, ← sound.linked.listed source old foundOld consumer]
      exact (reordered source old foundOld).mem_iff }
  indexed := sound.indexed.relist change
  acyclic := sound.acyclic.of_feeds fun producer reader feeds => by
    obtain ⟨input, slot, reads⟩ := feeds
    exact ⟨input, slot, (graph.reads_relist change).mp reads⟩
  fresh id node found := by
    rw [relist, node_mapNodes] at found
    obtain ⟨old, foundOld, rfl⟩ := Option.map_eq_some_iff.mp found
    rw [outputType_relist, Node.relist_outputTypes]
    exact sound.fresh id old foundOld

/-- Setting an input keeps the graph sound, whichever of its checks refuses and also
when the types no longer infer. -/
theorem keeps_setInput (id : NodeId) (input : Nat) (source : OutputRef) :
    Attempt.Keeps Sound (setInput id input source : Attempt (Graph α) Unit) := by
  intro graph sound
  by_cases ready : ∃ previous, graph.Redirectable previous source [⟨id, input⟩]
  · obtain ⟨previous, redirectable⟩ := ready
    rcases sound.setInput_cases redirectable with
      ⟨types, _, stored, soundAfter⟩ | ⟨_, failure, failed⟩
    · rw [stored]
      exact soundAfter
    · rw [failed]
      exact sound.relist_perm fun source slot found =>
        sound.linked.returned_perm redirectable.distinct redirectable.reading found
  · obtain ⟨failure, failed⟩ := sound.linked.setInput_refused fun previous redirectable =>
      ready ⟨previous, redirectable⟩
    rw [failed]
    exact sound

end SetInput

/-- A node may make way for a value: it is not an exit, the value is not its own, and
nothing that reads the node leads to the value. -/
structure Replaceable (graph : Graph α) (id : NodeId) (node : Node α) (target : OutputRef) :
    Prop where
  found : graph.node id = some node
  kind : node.kind ≠ .result
  other : target.node ≠ id
  redirectable : graph.Redirectable ⟨id, 0⟩ target node.consumers

/-- The graph after a node has made way for a value. An entry stays, without readers. -/
def replaced (graph : Graph α) (id : NodeId) (node : Node α) (target : OutputRef)
    (types : TypeAssignment) : Graph α :=
  let after := (graph.redirect ⟨id, 0⟩ target node.consumers).retypedBy types
  if node.kind = .parameter then after else after.detach id node.name

section ReplaceNode

variable {graph : Graph α} {id : NodeId} {node : Node α} {target : OutputRef}
  {outputs : List OutputRef}

/-- The moves that a replacement by one value makes. There is one for each reader of
the only output, in the order of its list. -/
theorem Single.replacementMoves_eq (single : graph.Single) (found : graph.node id = some node) :
    replacementMoves node [target] =
      node.consumers.map fun consumer => (consumer, target) := by
  obtain ⟨slot, sole, same, _⟩ := single.consumers found
  simp [replacementMoves, sole, same]

/-- The checks on a replacement pass where they should. The number of outputs, the
kinds, the types and the paths are all looked at. -/
theorem Linked.checkReplacement_iff (linked : graph.Linked) (single : graph.Single)
    (found : graph.node id = some node) : graph.checkReplacement id node outputs = .ok () ↔
      ∃ target, outputs = [target] ∧ graph.Replaceable id node target := by
  have closing (moves : List (Consumer × OutputRef)) : graph.closingMove moves = none ↔
      ∀ consumer target, (consumer, target) ∈ moves →
        ¬ ReflTransGen graph.Feeds consumer.node target.node := by
    simp [closingMove, List.find?_eq_none, ← linked.reaches_iff]
  obtain ⟨slot, sole, readers, source⟩ := single.consumers found
  constructor
  · -- The checks one after the other, in the order in which they are made.
    intro passed
    unfold checkReplacement at passed
    by_cases exit : node.kind = .result
    · simp [exit] at passed
    · by_cases counted : node.outputs.length ≠ outputs.length
      · simp [exit, counted] at passed
      · obtain ⟨target, rfl⟩ : ∃ target, outputs = [target] := by
          rw [Decidable.not_not, sole] at counted
          exact List.length_eq_one_iff.mp counted.symm
        by_cases own : target.node = id
        · simp [exit, sole, own] at passed
        · cases typed : graph.typesOf node.name [target] with
          | error failure => simp [exit, sole, own, typed] at passed
          | ok types =>
            cases opened : graph.closingMove (replacementMoves node [target]) with
            | some move => simp [exit, sole, own, typed, opened] at passed
            | none =>
              rw [closing, single.replacementMoves_eq found] at opened
              refine ⟨target, rfl, found, exit, own, ?_, ?_,
                exists_outputSlot_of_typesOf typed List.mem_cons_self, ?_⟩
              · exact readers ▸ linked.once _ slot source
              · intro consumer listed
                exact (linked.listed _ slot source consumer).mp (readers ▸ listed)
              · intro consumer listed
                exact opened consumer target (List.mem_map.mpr ⟨consumer, listed, rfl⟩)
  · rintro ⟨target, rfl, replaceable⟩
    obtain ⟨output, live⟩ := replaceable.redirectable.live
    have typed : graph.typesOf node.name [target] = .ok [output.type] := by
      rw [typesOf_eq_ok_iff, List.map_singleton, outputType_eq_map, live]
      rfl
    have opened : graph.closingMove (replacementMoves node [target]) = none := by
      rw [closing, single.replacementMoves_eq found]
      intro consumer value member
      obtain ⟨reader, reads, same⟩ := List.mem_map.mp member
      obtain ⟨rfl, rfl⟩ := Prod.mk.inj same
      exact replaceable.redirectable.apart reader reads
    simp [checkReplacement, replaceable.kind, sole, replaceable.other, typed, opened,
      pure, Except.pure]

/-- After all readers of a node have moved and types are stored, nothing reads it.
The removal that comes next cannot be refused. -/
theorem Replaceable.unread (replaceable : graph.Replaceable id node target)
    (single : graph.Single) (types : TypeAssignment) :
    ∃ after, ((graph.redirect ⟨id, 0⟩ target node.consumers).retypedBy types).node id =
      some after ∧ after.name = node.name ∧ after.consumerCount = 0 := by
  obtain ⟨slot, sole, readers, _⟩ := single.consumers replaceable.found
  have elsewhere : ⟨id, 0⟩ ≠ target := by
    rintro rfl
    exact replaceable.other rfl
  have left : movedReaders ⟨id, 0⟩ target slot.consumers ⟨id, 0⟩ slot.consumers = [] := by
    simp [movedReaders, elsewhere]
  have placed : ((graph.redirect ⟨id, 0⟩ target node.consumers).retypedBy types).node id =
      some (((node.relist (movedReaders ⟨id, 0⟩ target node.consumers) id).repoint
        (movedSource target node.consumers) id).retyped (types id)) := by
    rw [node_redirect_retypedBy, replaceable.found, Option.map_some]
  refine ⟨_, placed, rfl, ?_⟩
  simp [Node.consumerCount, Node.relist, Node.repoint, Node.retyped, sole, readers, left]

/-- All readers of a node together stand where they stood, once they have come back.
Nobody has stayed behind whom they would have to be told from in order. -/
theorem Replaceable.returned (replaceable : graph.Replaceable id node target)
    (single : graph.Single) :
    graph.relist (returnedReaders ⟨id, 0⟩ node.consumers) = graph := by
  obtain ⟨slot, _, readers, live⟩ := single.consumers replaceable.found
  apply relist_eq_self
  intro source output found
  unfold returnedReaders
  split
  · rename_i same
    subst same
    obtain rfl : slot = output := Option.some.inj (live.symm.trans found)
    simp [readers]
  · rfl

/-- Moving all readers of a node onto a value and undoing the moves gives the graph that was
there before, with all readers in their order. -/
theorem Replaceable.moves_back (replaceable : graph.Replaceable id node target)
    (linked : graph.Linked) (single : graph.Single) :
    rewireAll (replacementMoves node [target]) graph =
        (.ok (node.consumers.map fun consumer => (consumer, ⟨id, 0⟩)),
          graph.redirect ⟨id, 0⟩ target node.consumers) ∧
      rewireAll (node.consumers.map fun consumer => (consumer, ⟨id, 0⟩))
          (graph.redirect ⟨id, 0⟩ target node.consumers) =
        (.ok (node.consumers.map fun consumer => (consumer, target)), graph) := by
  have redirectable := replaceable.redirectable
  obtain ⟨slot, _, _, live⟩ := single.consumers replaceable.found
  constructor
  · rw [single.replacementMoves_eq replaceable.found]
    exact linked.rewireAll_eq redirectable.distinct redirectable.reading redirectable.live
  · have back := (redirectable.linked linked).rewireAll_eq redirectable.distinct
      (fun consumer moves => (redirectable.reading consumer moves).redirect_of_mem moves)
      (exists_outputSlot_redirect _ _ _ _ live)
    rwa [redirect_back linked redirectable.reading, replaceable.returned single] at back

/-- Whether a node may make way for a value can be checked. The condition can then
be decided on a graph that is given. -/
theorem Linked.exists_replaceable (linked : graph.Linked) (single : graph.Single)
    (checked : (graph.node id).map (fun node =>
      (graph.checkReplacement id node [target]).isOk) = some true) :
    ∃ node, graph.node id = some node ∧ graph.Replaceable id node target := by
  obtain ⟨node, found, passes⟩ := Option.map_eq_some_iff.mp checked
  obtain ⟨_, passed⟩ := Attempt.exists_ok_iff.mpr passes
  obtain ⟨value, same, replaceable⟩ := (linked.checkReplacement_iff single found).mp passed
  rw [List.singleton_inj] at same
  exact ⟨node, found, same ▸ replaceable⟩

variable [Arithmetic α]

/-- A replacement that its checks refuse changes nothing. The checks all come before
the first move. -/
theorem Sound.replaceNode_refused (sound : graph.Sound)
    (closed : ∀ node target, outputs = [target] → ¬ graph.Replaceable id node target) :
    ∃ failure, replaceNode id outputs graph = (.error failure, graph) := by
  cases found : graph.node id with
  | none =>
    have missing := getNode_of_none found
    exact ⟨_, by rw [replaceNode, Attempt.read_bind, Attempt.bind_of_error missing]⟩
  | some node =>
    have getting := getNode_of_node found
    cases checked : graph.checkReplacement id node outputs with
    | error failure =>
      exact ⟨failure, by
        rw [replaceNode, Attempt.read_bind, Attempt.bind_of_ok getting,
          Attempt.lift_bind_of_error checked]⟩
    | ok _ =>
      obtain ⟨target, same, replaceable⟩ :=
        (sound.linked.checkReplacement_iff sound.fresh.single found).mp checked
      exact absurd replaceable (closed node target same)

/-- A replacement that its checks admit either gives a sound graph or changes
nothing. If the types do not propagate, the readers are moved back in their order. -/
theorem Sound.replaceNode_cases (sound : graph.Sound)
    (replaceable : graph.Replaceable id node target) :
    (∃ types, (graph.redirect ⟨id, 0⟩ target node.consumers).Propagates graph.storedTypes
        (node.consumers.map Consumer.node).reverse types ∧
      replaceNode id [target] graph = (.ok (), graph.replaced id node target types) ∧
      (graph.replaced id node target types).Sound) ∨
    ((∀ types, ¬ (graph.redirect ⟨id, 0⟩ target node.consumers).Propagates graph.storedTypes
        (node.consumers.map Consumer.node).reverse types) ∧
      ∃ failure, replaceNode id [target] graph = (.error failure, graph)) := by
  have found := replaceable.found
  have single := sound.fresh.single
  have redirectable := replaceable.redirectable
  have getting := getNode_of_node found
  have checked := (sound.linked.checkReplacement_iff single found).mpr ⟨target, rfl, replaceable⟩
  obtain ⟨moving, back⟩ := replaceable.moves_back sound.linked single
  have seeds : (node.consumers.map fun consumer => (consumer, target)).map
      (fun (move : Consumer × OutputRef) => move.1.node) = node.consumers.map Consumer.node :=
    List.map_map
  -- Past its checks the replacement is the propagation, then the undoing or the removal.
  have start : replaceNode id [target] graph =
      ((retype (node.consumers.map Consumer.node)).orElse (fun failure => do
          let _ ← rewireAll (node.consumers.map fun consumer => (consumer, ⟨id, 0⟩))
          Attempt.fail failure) >>= fun _ =>
        if node.kind = .parameter then pure () else do
          let _ ← removeNode id
          pure ()) (graph.redirect ⟨id, 0⟩ target node.consumers) := by
    rw [replaceNode, Attempt.read_bind, Attempt.bind_of_ok getting,
      Attempt.lift_bind_of_ok checked, Attempt.bind_of_ok moving,
      single.replacementMoves_eq found, seeds]
  rw [start]
  have covers : Covers (node.consumers.map Consumer.node) node.consumers := fun _ => List.mem_map
  rcases sound.retype_redirect redirectable covers with
    ⟨types, propagates, stored, soundAfter⟩ | ⟨absent, failure, failed⟩
  · left
    refine ⟨types, propagates, ?_, ?_⟩
    · rw [Attempt.bind_of_ok (Attempt.orElse_of_ok stored)]
      by_cases entry : node.kind = .parameter
      · simp [replaced, entry]
      · obtain ⟨after, foundAfter, name, idle⟩ := replaceable.unread single types
        have removed := soundAfter.linked.removeNode_eq foundAfter idle
        rw [if_neg entry, Attempt.bind_of_ok removed]
        simp [replaced, entry, name]
    · unfold replaced
      split
      · exact soundAfter
      · obtain ⟨after, foundAfter, name, idle⟩ := replaceable.unread single types
        exact name ▸ soundAfter.detach foundAfter idle
  · right
    refine ⟨absent, failure, ?_⟩
    apply Attempt.bind_of_error
    rw [Attempt.orElse_of_error failed, Attempt.bind_of_ok back]
    rfl

/-- A replacement either goes through or changes nothing. The node itself goes only
after all its readers have been typed. -/
theorem keeps_replaceNode (id : NodeId) (outputs : List OutputRef) :
    Attempt.Keeps Sound (replaceNode id outputs : Attempt (Graph α) Unit) := by
  intro graph sound
  by_cases ready : ∃ node target, outputs = [target] ∧ graph.Replaceable id node target
  · obtain ⟨node, target, rfl, replaceable⟩ := ready
    rcases sound.replaceNode_cases replaceable with
      ⟨types, _, replacing, soundAfter⟩ | ⟨_, failure, failed⟩
    · rw [replacing]
      exact soundAfter
    · rw [failed]
      exact sound
  · obtain ⟨failure, failed⟩ := sound.replaceNode_refused fun node target same replaceable =>
      ready ⟨node, target, same, replaceable⟩
    rw [failed]
    exact sound

end ReplaceNode

end Graph

end RangeFold
