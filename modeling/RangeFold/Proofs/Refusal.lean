import RangeFold.Graph.Equality
import RangeFold.Proofs.Graph.Inference
import RangeFold.Proofs.Session

/-!
# Refused rewirings

Two questions about a rewiring that is refused: did it have to be, and is the graph as it
was?

Past the checks on the values and on cycles, a rewiring is refused exactly if the types of
the rewired graph do not propagate. Types that propagate can be inferred in order. The
converse holds where changes reach every node on one way at most; where they reach a node
on two ways, the node may be visited between the two changes, and the rewiring is refused
although the rewired graph could be typed. Which of the two comes first is a matter of the
order in which the readers were wired.

An input that has been moved and is moved back stands last among the readers of its old
value. The graph is as it was if it stood there before.
-/

namespace RangeFold

open Relation

variable {α : Type}

namespace Graph

/-- How the outcome of a rewiring depends on the rewired graph and the readers that have
moved. -/
structure Verdict [Arithmetic α] (graph rewired : Graph α) (seeds : List NodeId)
    (succeeds : Prop) : Prop where
  /-- It succeeds exactly if the types propagate from the moved readers, the last one first. -/
  propagation : succeeds ↔ ∃ types, rewired.Propagates graph.storedTypes seeds.reverse types
  /-- Types that propagate are those that inference in order finds. -/
  inference : ∀ types, rewired.Propagates graph.storedTypes seeds.reverse types →
    rewired.inferAll = .ok types
  /-- It succeeds as often as inference in order exactly if no inferable types fail to
  propagate. -/
  agreement : (succeeds ↔ ∃ types, rewired.inferAll = .ok types) ↔
    ((∃ types, rewired.inferAll = .ok types) →
      ∃ types, rewired.Propagates graph.storedTypes seeds.reverse types)
  /-- That is so where changes reach every node on one way at most. -/
  treelike : rewired.Treelike seeds → (succeeds ↔ ∃ types, rewired.inferAll = .ok types)

section Redirect

variable [Arithmetic α] {graph : Graph α} {previous target : OutputRef} {moved : List Consumer}
  {seeds : List NodeId}

/-- Types that propagate after edges have moved are inferred in order. So an edit
that succeeds was right to. -/
theorem Sound.inferAll_redirect (sound : graph.Sound)
    (redirectable : graph.Redirectable previous target moved)
    (seeded : ∀ consumer ∈ moved, consumer.node ∈ seeds) {types : TypeAssignment}
    (propagates : (graph.redirect previous target moved).Propagates graph.storedTypes
      seeds.reverse types) : (graph.redirect previous target moved).inferAll = .ok types := by
  have linked := redirectable.linked sound.linked
  have acyclic := redirectable.acyclic sound.acyclic
  have single : (graph.redirect previous target moved).Single := sound.fresh.single.redirect
  have settled := sound.consistent_redirect redirectable seeded propagates
  refine (inferAll_eq_ok_iff linked single acyclic).mpr ⟨settled, ?_⟩
  intro id empty
  rw [← storedTypes_redirect] at propagates
  have counted := propagates.sized single (fun _ => rfl) id
  rw [storedTypes, empty] at counted
  exact List.length_eq_zero_iff.mp counted

/-- Above the moved readers, inference in order finds the types that are stored. The
moved edges do not lead to those nodes. -/
theorem Sound.storedTypes_of_above (sound : graph.Sound)
    (covers : Covers seeds moved)
    (linked : (graph.redirect previous target moved).Linked)
    (acyclic : (graph.redirect previous target moved).Acyclic) {goal : TypeAssignment}
    (consistent : ∀ id, (graph.redirect previous target moved).Consistent goal id)
    (absent : ∀ id, (graph.redirect previous target moved).node id = none → goal id = [])
    {id : NodeId} (above : ¬ (graph.redirect previous target moved).Below seeds id) :
    graph.storedTypes id = goal id := by
  induction id using (acyclic.wellFounded linked).induction with
  | _ id inductionHypothesis =>
    cases found : (graph.redirect previous target moved).node id with
    | none =>
      rw [absent id found, ← storedTypes_redirect, storedTypes, found]
    | some node =>
      have unmoved : ∀ consumer ∈ moved, consumer.node ≠ id := by
        rintro consumer moves rfl
        exact above ⟨consumer.node, (covers _).mpr ⟨consumer, moves, rfl⟩, ReflTransGen.refl⟩
      refine Consistent.eq (sound.fresh.consistent_redirect unmoved) (consistent id) found ?_
      intro producer feeds
      apply inductionHypothesis producer feeds
      rintro ⟨seed, seeded, path⟩
      exact above ⟨seed, seeded, path.tail feeds⟩

/-- The verdict on edges that have moved, for any call that succeeds exactly if the types
propagate. -/
theorem Sound.verdict (sound : graph.Sound)
    (redirectable : graph.Redirectable previous target moved)
    (covers : Covers seeds moved) {succeeds : Prop}
    (propagation : succeeds ↔ ∃ types, (graph.redirect previous target moved).Propagates
      graph.storedTypes seeds.reverse types) :
    graph.Verdict (graph.redirect previous target moved) seeds succeeds := by
  have linked := redirectable.linked sound.linked
  have acyclic := redirectable.acyclic sound.acyclic
  have single : (graph.redirect previous target moved).Single := sound.fresh.single.redirect
  have inference (types : TypeAssignment)
      (propagates : (graph.redirect previous target moved).Propagates graph.storedTypes
        seeds.reverse types) : (graph.redirect previous target moved).inferAll = .ok types :=
    sound.inferAll_redirect redirectable covers.seeded propagates
  have agreement : (succeeds ↔ ∃ types, (graph.redirect previous target moved).inferAll =
      .ok types) ↔ ((∃ types, (graph.redirect previous target moved).inferAll = .ok types) →
        ∃ types, (graph.redirect previous target moved).Propagates graph.storedTypes
          seeds.reverse types) := by
    rw [propagation]
    constructor
    · exact fun same => same.mpr
    · intro complete
      refine ⟨?_, complete⟩
      rintro ⟨types, propagates⟩
      exact ⟨types, inference types propagates⟩
  refine ⟨propagation, inference, agreement, ?_⟩
  intro treelike
  apply agreement.mpr
  rintro ⟨goal, inferred⟩
  obtain ⟨consistent, absent⟩ := (inferAll_eq_ok_iff linked single acyclic).mp inferred
  have live (seed : NodeId) (seeded : seed ∈ seeds) := redirectable.exists_node covers seeded
  exact treelike.propagates linked acyclic consistent live fun id above =>
    sound.storedTypes_of_above covers linked acyclic consistent absent above

end Redirect

section Calls

variable [Arithmetic α] {graph : Graph α}

/-- Past the checks, a change of an input succeeds exactly if the propagation over
the redirected graph comes to an end with types. -/
theorem Sound.setInput_succeeds_iff (sound : graph.Sound) {id : NodeId} {input : Nat}
    {source previous : OutputRef}
    (redirectable : graph.Redirectable previous source [⟨id, input⟩]) :
    (∃ after, setInput id input source graph = (.ok (), after)) ↔
      ∃ types, (graph.redirect previous source [⟨id, input⟩]).Propagates graph.storedTypes
        [id] types := by
  rcases sound.setInput_cases redirectable with
    ⟨types, propagates, succeeded, _⟩ | ⟨absent, failure, failed⟩
  · exact iff_of_true ⟨_, succeeded⟩ ⟨types, propagates⟩
  · exact iff_of_false (by simp [failed]) fun ⟨types, propagates⟩ => absent types propagates

/-- Past the checks, a replacement succeeds exactly if the propagation from all
consumers at once comes to an end with types. The consumers wait in a stack, hence
the reversal. -/
theorem Sound.replaceNode_succeeds_iff (sound : graph.Sound) {id : NodeId} {node : Node α}
    {target : OutputRef} (replaceable : graph.Replaceable id node target) :
    (∃ after, replaceNode id [target] graph = (.ok (), after)) ↔
      ∃ types, (graph.redirect ⟨id, 0⟩ target node.consumers).Propagates graph.storedTypes
        (node.consumers.map Consumer.node).reverse types := by
  rcases sound.replaceNode_cases replaceable with
    ⟨types, propagates, succeeded, _⟩ | ⟨absent, failure, failed⟩
  · exact iff_of_true ⟨_, succeeded⟩ ⟨types, propagates⟩
  · exact iff_of_false (by simp [failed]) fun ⟨types, propagates⟩ => absent types propagates

/-- When setting an input and replacing a node succeed, past the checks on the values and
on cycles: exactly if the types propagate, which implies that the rewired graph infers in
order, and follows from it where changes reach every node on one way at most. -/
theorem rewiring_verdict (reachable : graph.Reachable) :
    (∀ id input source previous, graph.Redirectable previous source [⟨id, input⟩] →
      graph.Verdict (graph.redirect previous source [⟨id, input⟩]) [id]
        (∃ after, setInput id input source graph = (.ok (), after))) ∧
    ∀ id node target, graph.Replaceable id node target →
      graph.Verdict (graph.redirect ⟨id, 0⟩ target node.consumers)
        (node.consumers.map Consumer.node)
        (∃ after, replaceNode id [target] graph = (.ok (), after)) := by
  have sound := reachable.sound
  constructor
  · intro id input source previous redirectable
    exact sound.verdict redirectable (fun place => by simp [eq_comm]) (sound.setInput_succeeds_iff redirectable)
  · intro id node target replaceable
    exact sound.verdict replaceable.redirectable (fun _ => List.mem_map)
      (sound.replaceNode_succeeds_iff replaceable)

end Calls

/-- The attributes of an entry of rank one. -/
def vectorEntry (size : Nat) : Attributes Rat :=
  (Attributes.empty.insert "shape" (.shape [size])).insert "element_type" (.element .f32)

/-- A value that flows into a sum directly and through another node, and an entry of another
size to take its place. -/
def diamondSession : List (Call Rat) :=
  [.add .parameter "x" [] (vectorEntry 4),
    .add .parameter "y" [] (vectorEntry 6),
    .add .identity "n" [⟨0, 0⟩] Attributes.empty,
    .add .relu "a" [⟨2, 0⟩] Attributes.empty,
    .add .add "b" [⟨2, 0⟩, ⟨3, 0⟩] Attributes.empty]

/-- The graph that the session builds. -/
def diamond : Graph Rat := Call.performAll diamondSession empty

/-- The session is the way to reach it. -/
theorem diamond_reachable : diamond.Reachable := ⟨diamondSession, rfl⟩

/-- The input of the shared node may be turned to the other entry: no cycle stands
in the way. -/
theorem diamond_redirectable : diamond.Redirectable ⟨0, 0⟩ ⟨1, 0⟩ [⟨2, 0⟩] :=
  diamond_reachable.sound.linked.redirectable_iff.mpr (by decide +kernel)

/-- The shared node may make way for the other entry as well. -/
theorem diamond_replaceable :
    ∃ node, diamond.node 2 = some node ∧ diamond.Replaceable 2 node ⟨1, 0⟩ :=
  diamond_reachable.sound.linked.exists_replaceable diamond_reachable.sound.fresh.single
    (by decide +kernel)

/-- The verdicts on both edits of the shared node, one that changes its input and
one that replaces it. -/
theorem diamond_verdict :
    diamond.Verdict (diamond.redirect ⟨0, 0⟩ ⟨1, 0⟩ [⟨2, 0⟩]) [2]
        (∃ after, setInput 2 0 ⟨1, 0⟩ diamond = (.ok (), after)) ∧
      ∃ node : Node Rat, diamond.node 2 = some node ∧
        diamond.Verdict (diamond.redirect ⟨2, 0⟩ ⟨1, 0⟩ node.consumers)
          (node.consumers.map Consumer.node)
          (∃ after, replaceNode 2 [⟨1, 0⟩] diamond = (.ok (), after)) := by
  obtain ⟨settings, replacements⟩ := rewiring_verdict diamond_reachable
  obtain ⟨node, found, replaceable⟩ := diamond_replaceable
  exact ⟨settings 2 0 ⟨1, 0⟩ ⟨0, 0⟩ diamond_redirectable,
    node, found, replacements 2 node ⟨1, 0⟩ replaceable⟩

/-- The sum is typed between its two changes and the rewiring is refused, although the
rewired graph infers in order. It is not refused if the other reader was wired last. -/
theorem diamond_refused :
    diamond.Reachable ∧ diamond.Redirectable ⟨0, 0⟩ ⟨1, 0⟩ [⟨2, 0⟩] ∧
      (∃ types, (diamond.redirect ⟨0, 0⟩ ⟨1, 0⟩ [⟨2, 0⟩]).inferAll = .ok types) ∧
      (¬ ∃ after, setInput 2 0 ⟨1, 0⟩ diamond = (.ok (), after)) ∧
      (¬ ∃ after, replaceNode 2 [⟨1, 0⟩] diamond = (.ok (), after)) ∧
      ∃ after, setInput 2 0 ⟨1, 0⟩ (setInput 3 0 ⟨2, 0⟩ diamond).2 = (.ok (), after) := by
  refine ⟨diamond_reachable, diamond_redirectable, ?_⟩
  rw [Attempt.exists_ok_iff, Attempt.succeeds_iff, Attempt.succeeds_iff, Attempt.succeeds_iff]
  decide +kernel

section Restored

variable {graph : Graph α} {id : NodeId} {input : Nat} {previous : OutputRef}

/-- An input moved away and back is in its place if it was the last reader. It comes
back to the end of the list. -/
theorem Linked.relist_returned_eq_iff (linked : graph.Linked)
    (reads : graph.Reads ⟨id, input⟩ previous) :
    graph.relist (returnedReaders previous [⟨id, input⟩]) = graph ↔
      ∃ slot, graph.outputSlot previous = some slot ∧
        slot.consumers.getLast? = some ⟨id, input⟩ := by
  obtain ⟨slot, live⟩ := linked.produced _ _ reads
  have returned : returnedReaders previous [⟨id, input⟩] previous slot.consumers =
      slot.consumers.filter (· ≠ ⟨id, input⟩) ++ [⟨id, input⟩] := by
    simp [returnedReaders]
  constructor
  · intro same
    have stands := outputSlot_relist graph (returnedReaders previous [⟨id, input⟩]) previous
    rw [same, live, Option.map_some, returned] at stands
    refine ⟨slot, live, ?_⟩
    rw [congrArg OutputSlot.consumers (Option.some.inj stands)]
    exact List.getLast?_concat
  · rintro ⟨again, liveAgain, last⟩
    obtain rfl : slot = again := Option.some.inj (live.symm.trans liveAgain)
    apply relist_eq_self
    intro source output found
    by_cases same : source = previous
    · subst same
      obtain rfl : slot = output := Option.some.inj (live.symm.trans found)
      obtain ⟨others, split⟩ := List.getLast?_eq_some_iff.mp last
      have once : (others ++ [(⟨id, input⟩ : Consumer)]).Nodup := split ▸ linked.once _ slot live
      have kept : others.filter (· ≠ ⟨id, input⟩) = others := by
        rw [List.filter_eq_self]
        intro other listed
        have apart := (List.nodup_append.mp once).2.2 other listed _ List.mem_cons_self
        simpa using apart
      rw [returned, split, List.filter_append, kept]
      simp
    · rw [returnedReaders, if_neg same]

/-- What a refused setting of an input leaves. A call refused before the edge is moved
leaves the graph as it was; otherwise the input comes to stand last among the readers of
its value, and nothing else is changed. So all is as before exactly if it stood there. -/
theorem refused_setInput_restores_iff [Arithmetic α] (reachable : graph.Reachable) {source : OutputRef}
    {failure : Failure} {after : Graph α}
    (refused : setInput id input source graph = (.error failure, after)) :
    (after = graph ∨ ∃ previous, graph.Reads ⟨id, input⟩ previous ∧
      after = graph.relist (returnedReaders previous [⟨id, input⟩])) ∧
    (after = graph ↔
      (¬ ∃ previous, graph.Redirectable previous source [⟨id, input⟩]) ∨
        ∃ previous slot, graph.Reads ⟨id, input⟩ previous ∧
          graph.outputSlot previous = some slot ∧
            slot.consumers.getLast? = some ⟨id, input⟩) := by
  have sound := reachable.sound
  by_cases ready : ∃ previous, graph.Redirectable previous source [⟨id, input⟩]
  · obtain ⟨previous, redirectable⟩ := ready
    have reads := redirectable.reading _ List.mem_cons_self
    rcases sound.setInput_cases redirectable with ⟨_, _, succeeded, _⟩ | ⟨_, other, failed⟩
    · simp [succeeded] at refused
    · obtain ⟨-, rfl⟩ := Prod.mk.inj (failed.symm.trans refused)
      refine ⟨Or.inr ⟨previous, reads, rfl⟩, ?_⟩
      rw [sound.linked.relist_returned_eq_iff reads]
      constructor
      · rintro ⟨slot, live, last⟩
        exact Or.inr ⟨previous, slot, reads, live, last⟩
      · rintro (never | ⟨source, slot, readsAgain, live, last⟩)
        · exact absurd ⟨previous, redirectable⟩ never
        · obtain rfl : previous = source := reads.unique readsAgain
          exact ⟨slot, live, last⟩
  · obtain ⟨other, failed⟩ := sound.linked.setInput_refused fun previous redirectable =>
      ready ⟨previous, redirectable⟩
    obtain ⟨-, rfl⟩ := Prod.mk.inj (failed.symm.trans refused)
    exact ⟨Or.inl rfl, iff_of_true rfl (Or.inl ready)⟩

end Restored

/-- A sum that reads one value twice, and an entry that it cannot be added to. -/
def doubledSession : List (Call Rat) :=
  [.add .parameter "x" [] (vectorEntry 2),
    .add .parameter "y" [] (vectorEntry 3),
    .add .add "sum" [⟨0, 0⟩, ⟨0, 0⟩] Attributes.empty]

/-- The graph that the session builds. -/
def doubled : Graph Rat := Call.performAll doubledSession empty

/-- The edit is refused, for the types of the sum. -/
theorem doubled_refusal :
    ∃ failure, setInput 2 0 ⟨1, 0⟩ doubled = (.error failure, (setInput 2 0 ⟨1, 0⟩ doubled).2) :=
  Attempt.fails_iff.mpr (by decide +kernel)

/-- The condition for getting the graph back, read for this edit: the consumer that
is put back was the last one of its source. -/
theorem doubled_restores_iff :
    (∃ failure, setInput 2 0 ⟨1, 0⟩ doubled =
      (.error failure, (setInput 2 0 ⟨1, 0⟩ doubled).2)) ∧
    ((setInput 2 0 ⟨1, 0⟩ doubled).2 = doubled ↔
      (¬ ∃ previous, doubled.Redirectable previous ⟨1, 0⟩ [⟨2, 0⟩]) ∨
        ∃ previous slot, doubled.Reads ⟨2, 0⟩ previous ∧
          doubled.outputSlot previous = some slot ∧
            slot.consumers.getLast? = some ⟨2, 0⟩) := by
  obtain ⟨failure, refused⟩ := doubled_refusal
  exact ⟨⟨failure, refused⟩,
    (refused_setInput_restores_iff ⟨doubledSession, rfl⟩ refused).2⟩

/-- The sum is refused the entry, and its first input now stands behind its second
one. The edges are the same and the order of the readers is not. -/
theorem doubled_not_restored :
    doubled.Reachable ∧
      (∃ failure, setInput 2 0 ⟨1, 0⟩ doubled =
        (.error failure, (setInput 2 0 ⟨1, 0⟩ doubled).2)) ∧
      (setInput 2 0 ⟨1, 0⟩ doubled).2 ≠ doubled ∧
      doubled.consumers ⟨0, 0⟩ = [⟨2, 0⟩, ⟨2, 1⟩] ∧
      (setInput 2 0 ⟨1, 0⟩ doubled).2.consumers ⟨0, 0⟩ = [⟨2, 1⟩, ⟨2, 0⟩] ∧
      doubled.same (setInput 2 0 ⟨1, 0⟩ doubled).2 = false := by
  have before : doubled.consumers ⟨0, 0⟩ = [⟨2, 0⟩, ⟨2, 1⟩] := by decide +kernel
  have later : (setInput 2 0 ⟨1, 0⟩ doubled).2.consumers ⟨0, 0⟩ = [⟨2, 1⟩, ⟨2, 0⟩] := by
    decide +kernel
  refine ⟨⟨doubledSession, rfl⟩, doubled_refusal, ?_, before, later, by decide +kernel⟩
  intro same
  rw [same, before] at later
  cases later

end Graph

end RangeFold
