import RangeFold.Proofs.Convergence
import RangeFold.Proofs.Pass.ConstantFolding
import RangeFold.Proofs.Quantization.Validity

/-!
# What a folding does

A folding looks for a way from a range back to a constant, over layout operations that nothing else
reads and not too many of them. Without a way it declines. With one it reports a range that is not
valid, and otherwise it folds: the range, the way and the constant go, a new constant has the name,
the type and the readers of the range, and no other node is touched but where it read the range.

There is one other outcome. An operation on the way may lay elements out in a shape that no array can
have, and then the folding fails for good. Only a folding that goes through changes anything.
-/

namespace RangeFold

open Attempt

variable {α : Type}

namespace Graph

variable {graph : Graph α} {limit : Nat} {id : NodeId} {chain : List NodeId} {constant : NodeId}

/-- A way from what a range reads back to a constant, over a limited number of layout operations.
The operations, reader first, and the constant have a single reader each. -/
structure Way (graph : Graph α) (limit : Nat) (range : NodeId) (chain : List NodeId)
    (constant : NodeId) : Prop where
  begins : ∃ source, graph.producer range 0 = some source ∧ graph.ChainTo source chain constant
  short : chain.length ≤ limit

/-- The search for a way finds the one that there is. It neither stops too early nor
goes on too far. -/
theorem foldingSource_eq_some_iff :
    graph.foldingSource limit id = some (chain, constant) ↔ graph.Way limit id chain constant := by
  simp only [foldingSource, Option.bind_eq_some_iff, constantBehind_eq_some_iff]
  constructor
  · rintro ⟨source, fed, short, leads⟩
    exact ⟨⟨source, fed, leads⟩, short⟩
  · rintro ⟨⟨source, fed, leads⟩, short⟩
    exact ⟨source, fed, short, leads⟩

/-- The search for a constant finds none exactly if there is no way to one, so it
overlooks nothing within its limit. -/
theorem foldingSource_eq_none_iff : graph.foldingSource limit id = none ↔
    ∀ chain constant, ¬ graph.Way limit id chain constant := by
  simp only [← foldingSource_eq_some_iff, Option.eq_none_iff_forall_ne_some, Prod.forall, ne_eq]

/-- There is one way at most. Each node on it reads one value. -/
theorem Way.unique (way : graph.Way limit id chain constant) {other : List NodeId}
    {otherConstant : NodeId} (again : graph.Way limit id other otherConstant) :
    other = chain ∧ otherConstant = constant := by
  have same := (foldingSource_eq_some_iff.mpr again).symm.trans (foldingSource_eq_some_iff.mpr way)
  simpa using same

/-- Whatever the constants of the graph hold is an array, so it has a shape that arrays can have. -/
def HoldsArrays (graph : Graph α) : Prop :=
  ∀ place stored, graph.constantValue place = some stored → stored.shape.Storable

/-- It is enough to look at the live nodes. On a given graph this can be decided. -/
theorem holdsArrays_of_nodes (small : graph.nodes.all (fun entry =>
      (graph.constantValue entry.1).all fun stored => decide stored.shape.Storable) = true) :
    graph.HoldsArrays := by
  intro place stored holds
  obtain ⟨node, found, -⟩ := Option.bind_eq_some_iff.mp holds
  have each := List.all_eq_true.mp small _ (mem_nodes_iff.mpr found)
  simpa [holds] using each

/-- A way starts at what is read. That is the first operation, or the constant if
there is none. -/
theorem ChainTo.start_mem {source : NodeId} (leads : graph.ChainTo source chain constant) :
    source ∈ chain ++ [constant] := by
  cases leads <;> simp

variable [Arithmetic α]

/-- A node of a unary kind has one producer. It cannot be fed by another. -/
theorem Sound.producer_of_feeds (sound : graph.Sound) {node : Node α}
    (found : graph.node id = some node) (unary : node.kind.isUnary = true) {source : NodeId}
    (feeds : graph.Feeds source id) : graph.producer id 0 = some source := by
  obtain ⟨read, inputs, -⟩ := sound.sole_source found unary
  obtain ⟨_, slot, reads⟩ := feeds
  have readsFirst : graph.Reads ⟨id, 0⟩ read := ⟨node, found, by rw [inputs]; rfl⟩
  obtain ⟨same, -⟩ := sound.reads_unary found unary reads readsFirst
  simp [producer, found, inputs, ← same]

/-- What feeds the way is on it. Operations on it read one value each, and the
constant reads none. -/
theorem ChainTo.closed {source reader producer : NodeId}
    (leads : graph.ChainTo source chain constant) (sound : graph.Sound)
    (among : reader ∈ chain ++ [constant]) (feeds : graph.Feeds producer reader) :
    producer ∈ chain ++ [constant] := by
  induction leads with
  | @constant place node found _ kind =>
    obtain rfl := List.mem_singleton.mp among
    obtain ⟨types, known, typed⟩ := sound.fresh reader node found
    rw [kind] at typed
    obtain ⟨input, slot, again, foundAgain, listed⟩ := feeds
    obtain rfl : node = again := Option.some.inj (found.symm.trans foundAgain)
    rw [inferOutputs_constant typed, List.map_nil, List.map_eq_nil_iff] at known
    simp [known] at listed
  | @layout place next constant node chain found _ kind fed rest inductionHypothesis =>
    rcases List.mem_cons.mp among with rfl | later
    · have only := sound.producer_of_feeds found (OpKind.isUnary_of_isLayout kind) feeds
      obtain rfl := Option.some.inj (only.symm.trans fed)
      exact List.mem_cons_of_mem _ rest.start_mem
    · exact List.mem_cons_of_mem _ (inductionHypothesis later)

/-- So nothing else is read by what goes with a range. Taking it all away leaves
nothing that is cut off from its input. -/
theorem Way.closed (way : graph.Way limit id chain constant) (sound : graph.Sound) {node : Node α}
    (found : graph.node id = some node) (kind : node.kind = .quantizeRange)
    {producer reader : NodeId} (among : reader ∈ id :: (chain ++ [constant]))
    (feeds : graph.Feeds producer reader) : producer ∈ id :: (chain ++ [constant]) := by
  obtain ⟨source, fed, leads⟩ := way.begins
  rcases List.mem_cons.mp among with rfl | later
  · have only := sound.producer_of_feeds found (by rw [kind]; rfl) feeds
    obtain rfl := Option.some.inj (only.symm.trans fed)
    exact List.mem_cons_of_mem _ leads.start_mem
  · exact List.mem_cons_of_mem _ (leads.closed sound later feeds)

end Graph

variable [Arithmetic α]

/-- A folding at a range of a reachable graph folds exactly if there is a way to a constant, the
operations on it can yield arrays of their types, and the range is valid. If there is such a way, it
reports a range that is not valid. If there is a way that cannot be carried out, it fails, and for good
if the range is valid. It declines if there is no way. None of these changes anything.

When it folds, the range, the way and the constant are gone, a new constant has the name, type and
readers of the range, and the other nodes are as they were, except that inputs that read the range
read the new constant. -/
theorem folding_outcome {graph : Graph α} (reachable : graph.Reachable) (arrays : graph.HoldsArrays)
    {id : NodeId} {node : Node α} (found : graph.node id = some node)
    (kind : node.kind = .quantizeRange) (limit : Nat) (journal : Journal) :
    ∃ range, QuantRange.ofNode node = .ok range ∧
      ((∃ after, (constantFolding limit).apply id ⟨graph, journal⟩ = (.ok true, after)) ↔
        (∃ chain constant, graph.Way limit id chain constant ∧ graph.CanLay chain) ∧
          range.Valid) ∧
      (∀ chain constant, graph.Way limit id chain constant → graph.CanLay chain → range.Valid →
        ∃ type value after, node.outputType 0 = some type ∧
          graph.foldedValue node.name range chain constant = .ok value ∧
          (constantFolding limit).apply id ⟨graph, journal⟩ =
            (.ok true, ⟨after, journal.annotate graph.arena.length range.levels⟩) ∧
          after.Sound ∧
          ∀ other, after.node other =
            if other = graph.arena.length then
              some ⟨.constant, node.name, [], node.outputs, foldedAttributes value type.element⟩
            else if other ∈ id :: (chain ++ [constant]) then none
            else (graph.node other).map (Node.reread ⟨id, 0⟩ (.first graph.arena.length))) ∧
      (∀ chain constant, graph.Way limit id chain constant → graph.CanLay chain → ¬ range.Valid →
        ∃ failure, (constantFolding limit).apply id ⟨graph, journal⟩ =
            (.error failure, ⟨graph, journal⟩) ∧ failure.isRecoverable = true) ∧
      (∀ chain constant, graph.Way limit id chain constant → ¬ graph.CanLay chain →
        ∃ failure, (constantFolding limit).apply id ⟨graph, journal⟩ =
            (.error failure, ⟨graph, journal⟩) ∧
          (range.Valid → failure.isRecoverable = false)) ∧
      ((∀ chain constant, ¬ graph.Way limit id chain constant) →
        (constantFolding limit).apply id ⟨graph, journal⟩ = (.ok false, ⟨graph, journal⟩)) := by
  have sound := reachable.sound
  have applied : (constantFolding limit).apply id ⟨graph, journal⟩ = _ :=
    foldRange_eq limit id ⟨graph, journal⟩
  obtain ⟨range, type, stated, typed, fits, ⟨walked, none⟩ |
    ⟨chain, constant, stored, walked, holds, small, outcome⟩⟩ :=
      sound.foldPlan_of_range limit found kind
  · have blocked := Graph.foldingSource_eq_none_iff.mp walked
    simp only [none] at applied
    refine ⟨range, stated, ?_, fun chain constant way => absurd way (blocked chain constant),
      fun chain constant way => absurd way (blocked chain constant),
      fun chain constant way => absurd way (blocked chain constant), fun _ => applied⟩
    simp [applied, blocked]
  -- There is one way only, so what is shown of this one is shown of any.
  have way := Graph.foldingSource_eq_some_iff.mp walked
  have comparable (lays : graph.CanLay chain) : range.Comparable :=
    fits.comparable (small lays (arrays constant stored holds))
  have only {other : List NodeId} {otherConstant : NodeId}
      (again : graph.Way limit id other otherConstant) (lays : graph.CanLay other) :
      graph.CanLay chain := (way.unique again).1 ▸ lays
  refine ⟨range, stated, ?_⟩
  -- The range is refused, or the way cannot be laid out, or the folding is planned.
  rcases outcome with ⟨failure, refused, failed⟩ | ⟨passed, blocked, failed⟩ |
    ⟨passed, lays, value, folded, foldable, planned⟩
  · have invalid (lays : graph.CanLay chain) : ¬ range.Valid := fun valid => by
      cases refused.symm.trans (QuantRange.validate_eq_ok_iff.mpr ⟨valid, comparable lays⟩)
    simp only [failed] at applied
    refine ⟨iff_of_false (by simp [applied]) ?_, fun _ _ again lays valid =>
        absurd valid (invalid (only again lays)),
      fun _ _ again lays _ =>
        ⟨failure, applied, QuantRange.recoverable_of_validate (comparable (only again lays)) refused⟩,
      fun _ _ _ _ => ⟨failure, applied, fun valid => QuantRange.grave_of_validate valid refused⟩,
      fun none => absurd way (none chain constant)⟩
    rintro ⟨⟨_, _, again, lays⟩, valid⟩
    exact invalid (only again lays) valid
  · simp only [failed] at applied
    refine ⟨iff_of_false (by simp [applied]) ?_, fun _ _ again lays =>
        absurd (only again lays) blocked, fun _ _ again lays => absurd (only again lays) blocked,
      fun _ _ _ _ => ⟨_, applied, fun _ => rfl⟩, fun none => absurd way (none chain constant)⟩
    rintro ⟨⟨_, _, again, lays⟩, -⟩
    exact blocked (only again lays)
  · have valid := (QuantRange.validate_eq_ok_iff.mp passed).1
    have soundStart : (⟨graph, journal⟩ : Progress α).graph.Sound := sound
    obtain ⟨again, after, foundAgain, installed, soundAfter, -, left⟩ :=
      Graph.Foldable.install_eq foldable soundStart
    obtain rfl : node = again := Option.some.inj (found.symm.trans foundAgain)
    simp only [planned] at applied
    have answer := applied.trans installed
    refine ⟨iff_of_true ⟨_, answer⟩ ⟨⟨chain, constant, way, lays⟩, valid⟩, ?_,
      fun _ _ _ _ invalid => absurd valid invalid, fun _ _ again blocked =>
        absurd ((way.unique again).1 ▸ lays) blocked,
      fun none => absurd way (none chain constant)⟩
    intro other otherConstant again _ _
    obtain ⟨rfl, rfl⟩ := way.unique again
    refine ⟨type, value, after, typed, folded, answer, soundAfter, fun place => ?_⟩
    rw [left]
    exact sound.linked.successor_eq
      (fun producer reader among feeds => way.closed sound found kind among feeds) rfl place

section Layered

/-- A constant that reaches a range through a layout operation. -/
def layeredSession : List (Call Rat) :=
  [.add .constant "w" [] (Attributes.empty.insert "value" (.tensor (Tensor.vector [0, 1]))),
    .add .identity "i" [⟨0, 0⟩] Attributes.empty,
    .add .quantizeRange "q" [⟨1, 0⟩]
      (QuantRange.toAttributes ⟨.scalar 0, .scalar 1, .scalar 0, .scalar 1, 2⟩),
    .add .result "r" [⟨2, 0⟩] Attributes.empty]

/-- The graph that the session builds. -/
def layered : Graph Rat := Call.performAll layeredSession Graph.empty

/-- The range is folded over one operation, but not over none. The limit counts
operations and not nodes. -/
theorem layered_outcome :
    (constantFolding 0).apply 2 ⟨layered, Journal.fresh⟩ =
        (.ok false, ⟨layered, Journal.fresh⟩) ∧
      ∃ after, (constantFolding 1).apply 2 ⟨layered, Journal.fresh⟩ = (.ok true, after) ∧
        after.graph.nameAt 4 = some "q" ∧ ∀ other ∈ [0, 1, 2], after.graph.node other = none := by
  have range : layered.kindAt 2 = some .quantizeRange := by decide +kernel
  obtain ⟨node, found, kind⟩ := Graph.kindAt_eq_some_iff.mp range
  have reachable : layered.Reachable := ⟨layeredSession, rfl⟩
  have blocked : layered.foldingSource 0 2 = none := by decide +kernel
  have walked : layered.foldingSource 1 2 = some ([1], 0) := by decide +kernel
  have checked : ((layered.node 2).map fun node =>
      (QuantRange.ofNode node).bind fun range => range.validate node.name) = some (.ok ()) := by
    decide +kernel
  have named : layered.nameAt 2 = some "q" := by decide +kernel
  have arrays : layered.HoldsArrays := Graph.holdsArrays_of_nodes (by decide +kernel)
  have small : layered.Storable := Graph.storable_of_nodes (by decide +kernel)
  constructor
  · obtain ⟨-, -, -, -, -, -, declines⟩ :=
      folding_outcome reachable arrays found kind 0 Journal.fresh
    exact declines (Graph.foldingSource_eq_none_iff.mp blocked)
  · obtain ⟨range, stated, -, folds, -⟩ :=
      folding_outcome reachable arrays found kind 1 Journal.fresh
    have valid : range.Valid := by
      rw [found, Option.map_some, stated] at checked
      exact (QuantRange.validate_eq_ok_iff.mp (Option.some.inj checked)).1
    obtain ⟨type, value, after, -, -, applied, -, left⟩ :=
      folds [1] 0 (Graph.foldingSource_eq_some_iff.mp walked) (small.canLay [1]) valid
    have length : layered.arena.length = 4 := by decide +kernel
    refine ⟨_, applied, ?_, fun other gone => ?_⟩
    · rw [Graph.nameAt, found] at named
      rw [Graph.nameAt, left 4, if_pos length.symm]
      exact named
    · simp only [List.mem_cons, List.not_mem_nil, or_false] at gone
      rcases gone with rfl | rfl | rfl <;> simp [left, length]

end Layered

section Stretched

/-- A constant without elements that reaches a range through a layout of very many rows of two
columns. -/
def stretchedSession : List (Call Rat) :=
  [.add .constant "w" [] (Attributes.empty.insert "value" (.tensor (Tensor.vector []))),
    .add .reshape "wide" [⟨0, 0⟩] (Attributes.empty.insert "shape" (.ints [0, 2 ^ 62, 2])),
    .add .quantizeRange "q" [⟨1, 0⟩]
      (QuantRange.toAttributes ⟨.scalar 0, .scalar 1, .scalar 0, .scalar 1, 2⟩)]

/-- The graph that the session builds. -/
def stretched : Graph Rat := Call.performAll stretchedSession Graph.empty

/-- There is a way to the constant and the range is valid, and still the folding
fails. The array would have a shape that is too large, though it has no element. -/
theorem stretched_not_folded :
    stretched.Reachable ∧ stretched.HoldsArrays ∧ stretched.Way 1 2 [1] 0 ∧
      (∃ node range, stretched.node 2 = some node ∧ QuantRange.ofNode node = .ok range ∧
        range.Valid) ∧
      (constantFolding 1).apply 2 ⟨stretched, Journal.fresh⟩ =
        (.error (.internal (.layout .tooLarge)), ⟨stretched, Journal.fresh⟩) := by
  have walked : stretched.foldingSource 1 2 = some ([1], 0) := by decide +kernel
  have checked : ((stretched.node 2).map fun node =>
      (QuantRange.ofNode node).bind fun range => range.validate node.name) = some (.ok ()) := by
    decide +kernel
  have planned : (foldPlan stretched 1 2).map Option.isSome =
      .error (.internal (.layout .tooLarge)) := by decide +kernel
  refine ⟨⟨stretchedSession, rfl⟩, Graph.holdsArrays_of_nodes (by decide +kernel),
    Graph.foldingSource_eq_some_iff.mp walked, ?_, ?_⟩
  · obtain ⟨node, found, validated⟩ := Option.map_eq_some_iff.mp checked
    obtain ⟨range, stated, passed⟩ := bind_eq_ok_iff.mp validated
    exact ⟨node, range, found, stated, (QuantRange.validate_eq_ok_iff.mp passed).1⟩
  · show foldRange 1 2 ⟨stretched, Journal.fresh⟩ = _
    rw [foldRange_eq]
    cases found : foldPlan stretched 1 2 with
    | error failure =>
      rw [found] at planned
      cases planned
      rfl
    | ok _ =>
      rw [found] at planned
      cases planned

end Stretched

end RangeFold
