import RangeFold.Proofs.Graph.Turns
import RangeFold.Proofs.Refusal

/-!
# Where retyping settles

A rewiring that has passed its checks leaves a graph without cycles in which types may follow
from one another no longer, but do so everywhere except at the nodes whose inputs have moved.
Retyping from any list of nodes that has these among it ends, and there are two ways to end. The
rule of some node refuses the types of its inputs, and nothing has been stored. Or all is quiet,
and then the types follow from one another everywhere.

In a graph without cycles there is one assignment of which that is true. So neither the order of
the list nor what else is on it matters to a retyping that succeeds, though it may matter to
whether it does.
-/

namespace RangeFold

variable {α : Type}

namespace Graph

/-- Every node has the types that its rule infers from those of its inputs. An empty place has
none. -/
def TypedBy [Arithmetic α] (graph : Graph α) (types : TypeAssignment) : Prop :=
  (∀ id, graph.Consistent types id) ∧ ∀ id, graph.node id = none → types id = []

/-- What the two calls that rewire do to the edges once their checks have passed, and before
they type anything again: the inputs they move and the graph they leave. -/
inductive Rewires (graph : Graph α) : List Consumer → Graph α → Prop where
  | setInput {id : NodeId} {node : Node α} {input : Nat} {source previous : OutputRef}
      {types : List TensorType} {rewired : Graph α} (found : graph.node id = some node)
      (inside : input < node.inputs.length) (typed : graph.typesOf node.name [source] = .ok types)
      (apart : graph.reaches id source.node = false)
      (moves : rewire ⟨id, input⟩ source graph = (.ok previous, rewired)) :
      Rewires graph [⟨id, input⟩] rewired
  | replaceNode {id : NodeId} {node : Node α} {outputs : List OutputRef}
      {undo : List (Consumer × OutputRef)} {rewired : Graph α} (found : graph.node id = some node)
      (checked : graph.checkReplacement id node outputs = .ok ())
      (moves : rewireAll (replacementMoves node outputs) graph = (.ok undo, rewired)) :
      Rewires graph ((replacementMoves node outputs).map Prod.fst) rewired

section Settles

variable [Arithmetic α] {graph rewired : Graph α} {moved : List Consumer} {seeds : List NodeId}

/-- Whichever call it was, inputs that read one value have come to read another. The
checks before it have seen to the rest. -/
theorem Sound.exists_redirect (sound : graph.Sound) (rewires : graph.Rewires moved rewired) :
    ∃ previous target, graph.Redirectable previous target moved ∧
      rewired = graph.redirect previous target moved := by
  cases rewires with
  | @setInput id node input source previous types _ found inside typed apart moves =>
    have reads : graph.Reads ⟨id, input⟩ node.inputs[input] :=
      ⟨node, found, List.getElem?_eq_getElem inside⟩
    have live := exists_outputSlot_of_typesOf typed List.mem_cons_self
    have redirectable : graph.Redirectable node.inputs[input] source [⟨id, input⟩] := by
      refine ⟨List.nodup_singleton _, by simpa using reads, live, ?_⟩
      simpa [← sound.linked.reaches_iff] using apart
    have moving := sound.linked.rewire_eq reads live
    exact ⟨_, _, redirectable, (Prod.mk.inj (moves.symm.trans moving)).2⟩
  | @replaceNode id node outputs undo _ found checked moves =>
    have single := sound.fresh.single
    obtain ⟨target, rfl, replaceable⟩ :=
      (sound.linked.checkReplacement_iff single found).mp checked
    have moving := (replaceable.moves_back sound.linked single).1
    have those : (replacementMoves node [target]).map Prod.fst = node.consumers := by
      rw [single.replacementMoves_eq found, List.map_map]
      exact List.map_id _
    rw [those]
    exact ⟨_, _, replaceable.redirectable, (Prod.mk.inj (moves.symm.trans moving)).2⟩

/-- The budget of a retyping lasts until its loop has ended. The graph has no
cycles, so every visit is paid for. -/
theorem exists_ends_within_budget (linked : graph.Linked) (acyclic : graph.Acyclic)
    (seeds : List NodeId) :
    ∃ turns outcome, turns ≤ graph.retypingBudget seeds ∧
      TypeDraft.Ends graph seeds.reverse [] turns outcome := by
  obtain ⟨turns, outcome, bounded, ends⟩ :=
    TypeDraft.exists_ends (visitCost_pays linked acyclic) seeds.reverse []
  exact ⟨turns, outcome, bounded.trans (retypingBudget_pays linked acyclic seeds), ends⟩

/-- So the budget makes no difference to how a retyping ends. It need not be
mentioned when a retyping is described. -/
theorem settle_eq_of_ends (linked : graph.Linked) (acyclic : graph.Acyclic) {turns : Nat}
    {outcome : Except Failure TypeDraft}
    (ends : TypeDraft.Ends graph seeds.reverse [] turns outcome) :
    TypeDraft.settle graph (graph.retypingBudget seeds) seeds.reverse [] = outcome := by
  obtain ⟨_, _, bounded, again⟩ := exists_ends_within_budget linked acyclic seeds
  obtain ⟨rfl, rfl⟩ := ends.unique again
  exact TypeDraft.settle_of_ends ends bounded

/-- A graph without cycles is typed in one way at most. Entries and constants fix
the types of all others in order. -/
theorem typedBy_iff_eq (linked : graph.Linked) (single : graph.Single) (acyclic : graph.Acyclic)
    {types : TypeAssignment} (inferred : graph.inferAll = .ok types) (other : TypeAssignment) :
    graph.TypedBy other ↔ other = types := by
  rw [TypedBy, ← inferAll_eq_ok_iff linked single acyclic, inferred, Except.ok.injEq, eq_comm]

/-- Retyping that succeeds after inputs have moved leaves the one way in which the graph is
typed. -/
theorem Sound.typedBy_retyped {previous target : OutputRef} {after : Graph α} (sound : graph.Sound)
    (redirectable : graph.Redirectable previous target moved)
    (seeded : ∀ consumer ∈ moved, consumer.node ∈ seeds)
    (done : retype seeds (graph.redirect previous target moved) = (.ok (), after)) :
    after = (graph.redirect previous target moved).retypedBy after.storedTypes ∧
      ∀ types, (graph.redirect previous target moved).TypedBy types ↔
        types = after.storedTypes := by
  obtain ⟨final, propagates, sized, rfl⟩ := propagates_of_retype done
  rw [storedTypes_redirect] at propagates
  have inferred := sound.inferAll_redirect redirectable seeded propagates
  rw [storedTypes_retypedBy sized]
  exact ⟨rfl, typedBy_iff_eq (redirectable.linked sound.linked) sound.fresh.single.redirect
    (redirectable.acyclic sound.acyclic) inferred⟩

/-- Once edges have moved, retyping from any list that has the readers moved among it ends
within its budget. If it fails, a node of the list is not there or the rule of a node refuses
the types of its inputs, and nothing is written. If it succeeds, all that is written is types,
and they are the only ones that follow from one another everywhere. So two lists that both
succeed leave the same graph. -/
theorem retyping_settles (reachable : graph.Reachable) (rewires : graph.Rewires moved rewired) :
    (∀ seeds, (∀ consumer ∈ moved, consumer.node ∈ seeds) →
      (∃ turns outcome, turns ≤ rewired.retypingBudget seeds ∧
        TypeDraft.Ends rewired seeds.reverse [] turns outcome) ∧
      (∀ turns failure, TypeDraft.Ends rewired seeds.reverse [] turns (.error failure) →
        retype seeds rewired = (.error failure, rewired) ∧
          ((∃ id ∈ seeds, rewired.node id = none ∧ failure = .deadNode id) ∨
            ∃ id node types, rewired.node id = some node ∧ node.Refuses types failure)) ∧
      ∀ turns draft, TypeDraft.Ends rewired seeds.reverse [] turns (.ok draft) →
        ∃ after, retype seeds rewired = (.ok (), after) ∧ after = draft.write rewired ∧
          after = rewired.retypedBy after.storedTypes ∧
            ∀ types, rewired.TypedBy types ↔ types = after.storedTypes) ∧
    ∀ first second one other, (∀ consumer ∈ moved, consumer.node ∈ first) →
      (∀ consumer ∈ moved, consumer.node ∈ second) →
        retype first rewired = (.ok (), one) → retype second rewired = (.ok (), other) →
          one = other := by
  have sound := reachable.sound
  obtain ⟨previous, target, redirectable, rfl⟩ := sound.exists_redirect rewires
  have linked := redirectable.linked sound.linked
  have acyclic := redirectable.acyclic sound.acyclic
  have single : (graph.redirect previous target moved).Single := sound.fresh.single.redirect
  constructor
  · intro seeds seeded
    refine ⟨exists_ends_within_budget linked acyclic seeds, ?_, ?_⟩
    · intro turns failure ends
      refine ⟨by rw [retype, settle_eq_of_ends linked acyclic ends], ?_⟩
      simpa using ends.blamed linked single fun _ => rfl
    · intro turns draft ends
      have done : retype seeds (graph.redirect previous target moved) =
          (.ok (), draft.write (graph.redirect previous target moved)) := by
        rw [retype, settle_eq_of_ends linked acyclic ends]
      exact ⟨_, done, rfl, sound.typedBy_retyped redirectable seeded done⟩
  · intro first second one other seeded seededToo done doneToo
    obtain ⟨written, typed⟩ := sound.typedBy_retyped redirectable seeded done
    obtain ⟨writtenToo, typedToo⟩ := sound.typedBy_retyped redirectable seededToo doneToo
    have same : one.storedTypes = other.storedTypes := (typedToo _).mp ((typed _).mpr rfl)
    rw [written, writtenToo, same]

end Settles

/-- A value and its rectified form one behind the other, and an entry of another size that is to
take the place of the first. -/
def stackedSession : List (Call Rat) :=
  [.add .parameter "x" [] (vectorEntry 4),
    .add .parameter "y" [] (vectorEntry 6),
    .add .identity "n" [⟨0, 0⟩] Attributes.empty,
    .add .relu "a" [⟨2, 0⟩] Attributes.empty,
    .add .concat "b" [⟨2, 0⟩, ⟨3, 0⟩] (Attributes.empty.insert "axis" (.int 0)),
    .add .relu "r" [⟨4, 0⟩] Attributes.empty]

/-- The graph that the session builds. -/
def stacked : Graph Rat := Call.performAll stackedSession empty

/-- The graph with the first value moved onto the other entry. -/
def restacked : Graph Rat := (rewire ⟨2, 0⟩ ⟨1, 0⟩ stacked).2

/-- The identity node comes to read the entry of another size. No new type has been
written yet, which is where the propagation starts. -/
theorem stacked_rewires : stacked.Rewires [⟨2, 0⟩] restacked := by
  obtain ⟨node, found, described⟩ := Option.map_eq_some_iff.mp
    (by decide +kernel : (stacked.node 2).map (fun node => node.inputs.length) = some 1)
  have typed : stacked.typesOf node.name [⟨1, 0⟩] = .ok [⟨.f32, [6]⟩] :=
    typesOf_eq_ok_iff.mpr (by decide +kernel)
  have moves : (rewire ⟨2, 0⟩ ⟨1, 0⟩ stacked).1 = .ok ⟨0, 0⟩ := by decide +kernel
  exact .setInput found (by omega) typed (by decide +kernel) (Prod.ext moves rfl)

/-- Four nodes are typed in six turns, since two of them change twice. Asking for more of them, and
more than once, takes nine turns to the same graph. -/
theorem stacked_settles :
    stacked.Reachable ∧ stacked.Rewires [⟨2, 0⟩] restacked ∧
      (∃ draft, TypeDraft.Ends restacked [2] [] 6 (.ok draft)) ∧
      (∃ draft, TypeDraft.Ends restacked [2, 3, 2, 4] [] 9 (.ok draft)) ∧
      (∃ turns outcome, turns ≤ restacked.retypingBudget [2] ∧
        TypeDraft.Ends restacked [2] [] turns outcome) ∧
      ∃ after, retype [2] restacked = (.ok (), after) ∧
        retype [4, 2, 3, 2] restacked = (.ok (), after) ∧
          after.outputType ⟨4, 0⟩ = some ⟨.f32, [12]⟩ ∧
            ∀ types, restacked.TypedBy types ↔ types = after.storedTypes := by
  obtain ⟨settles, same⟩ := retyping_settles ⟨stackedSession, rfl⟩ stacked_rewires
  obtain ⟨terminates, -, succeeds⟩ := settles [2] (by simp)
  obtain ⟨-, -, succeedsToo⟩ := settles [4, 2, 3, 2] (by simp)
  have ends : ∃ draft, TypeDraft.Ends restacked [2] [] 6 (.ok draft) :=
    ⟨_, .next rfl (.next rfl (.next rfl (.next rfl (.next rfl (.next rfl (.empty _))))))⟩
  have endsToo : ∃ draft, TypeDraft.Ends restacked [2, 3, 2, 4] [] 9 (.ok draft) :=
    ⟨_, .next rfl (.next rfl (.next rfl (.next rfl (.next rfl (.next rfl (.next rfl (.next rfl
      (.next rfl (.empty _)))))))))⟩
  obtain ⟨after, done, -, -, typed⟩ := succeeds 6 _ ends.choose_spec
  obtain ⟨other, doneToo, -⟩ := succeedsToo 9 _ endsToo.choose_spec
  obtain rfl := same [2] [4, 2, 3, 2] after other (by simp) (by simp) done doneToo
  have final : (retype [2] restacked).2.outputType ⟨4, 0⟩ = some ⟨.f32, [12]⟩ := by decide +kernel
  rw [done] at final
  exact ⟨⟨stackedSession, rfl⟩, stacked_rewires, ends, endsToo, terminates, after, done, doneToo,
    final, typed⟩

end Graph

end RangeFold
