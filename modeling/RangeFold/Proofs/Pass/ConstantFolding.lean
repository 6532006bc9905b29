import RangeFold.Proofs.Graph.Succession
import RangeFold.Proofs.Pass.BoundFusion

/-!
# Folding is reliable

Behind a range the walk over layout operations ends at a constant, or there is nothing to
fold. Every node on the way has one reader, so the way hangs on the range; every operation
on it is typed, so it can be carried out, and the value comes out in the shape of the range's
input, which its bounds fit. The validity of the range can be at fault, and that is reported.
Otherwise only the size of a shape can be: an operation on the way cannot be carried out if it
lays elements out in a shape that no array can have, and this ends the run.

The range, the way and the constant go, and one constant comes.
-/

namespace RangeFold

open Attempt Relation

variable {α : Type}

/-- What a folding is going to install, in the place of which nodes. -/
structure FoldPlan (α : Type) where
  name : String
  element : ElementType
  value : Tensor α
  chain : List NodeId
  constant : NodeId
  levels : Int

/-- All that a folding finds out before it changes the graph. -/
def foldPlan [Arithmetic α] (graph : Graph α) (limit : Nat) (id : NodeId) :
    Except Failure (Option (FoldPlan α)) := do
  let node ← graph.nodeAt id
  match node.outputType 0 with
  | none => .error (.internal (.missingOutput node.name))
  | some type =>
    let range ← QuantRange.ofNode node
    match graph.foldingSource limit id with
    | none => return none
    | some (chain, constant) =>
      range.validate node.name
      let value ← graph.foldedValue node.name range chain constant
      if value.shape ≠ type.shape then
        .error (.internal (.foldedShape node.name value.shape type.shape))
      else return some ⟨node.name, type.element, value, chain, constant, range.levels⟩

/-- The change that a plan amounts to. -/
def FoldPlan.install [Arithmetic α] (plan : FoldPlan α) (id : NodeId) :
    Attempt (Progress α) Bool := do
  let folded ← Progress.onGraph
    (installConstant id plan.name plan.element plan.value plan.chain plan.constant)
  Progress.note fun journal => journal.annotate folded plan.levels
  return true

/-- A folding plans and then installs. Planning only reads, so a refusal of the plan
leaves everything as it is. -/
theorem foldRange_eq [Arithmetic α] (limit : Nat) (id : NodeId) (progress : Progress α) :
    foldRange limit id progress = match foldPlan progress.graph limit id with
      | .error failure => (.error failure, progress)
      | .ok none => (.ok false, progress)
      | .ok (some plan) => plan.install id progress := by
  rw [foldRange, Progress.currentGraph_bind, foldPlan]
  cases progress.graph.nodeAt id with
  | error failure => rfl
  | ok node =>
    rw [lift_bind_of_ok rfl, ok_bind]
    cases node.outputType 0 with
    | none => rfl
    | some type =>
      dsimp only
      cases QuantRange.ofNode node with
      | error failure => rfl
      | ok range =>
        rw [lift_bind_of_ok rfl, ok_bind]
        cases progress.graph.foldingSource limit id with
        | none => rfl
        | some source =>
          obtain ⟨chain, constant⟩ := source
          dsimp only
          cases range.validate node.name with
          | error failure => rfl
          | ok _ =>
            rw [lift_bind_of_ok rfl, ok_bind]
            cases progress.graph.foldedValue node.name range chain constant with
            | error failure => rfl
            | ok value =>
              rw [lift_bind_of_ok rfl, ok_bind]
              by_cases shaped : value.shape = type.shape
              · rw [if_neg (not_not_intro shaped), if_neg (not_not_intro shaped)]
                rfl
              · rw [if_pos shaped, if_pos shaped]
                rfl

namespace Graph

variable [Arithmetic α] {graph : Graph α} {id reader source constant : NodeId}
  {chain : List NodeId}

/-- The way to a constant hangs on whoever reads its first node. Every node on it
has a single reader, the one before it. -/
theorem ChainTo.hangs (leads : graph.ChainTo source chain constant) (sound : graph.Sound)
    (feeds : graph.Feeds source reader) :
    graph.Hangs reader (chain ++ [constant]) ∧
      ∀ other ∈ chain ++ [constant], TransGen graph.Feeds other reader := by
  induction leads generalizing reader with
  | @constant place node found single kind =>
    have apart : reader ≠ place := fun same => sound.acyclic place (.single (same ▸ feeds))
    refine ⟨⟨by simp [apart], by simp [found], ?_, List.pairwise_singleton _ _⟩, ?_⟩
    · intro other among next feedsNext
      obtain rfl := List.mem_singleton.mp among
      exact sound.reader_unique single feeds feedsNext ▸ List.mem_cons_self
    · intro other among
      obtain rfl := List.mem_singleton.mp among
      exact .single feeds
  | @layout place producer constant node chain found single kind fed rest inductionHypothesis =>
    have feedsPlace : graph.Feeds producer place := by
      obtain ⟨read, listed, rfl⟩ : ∃ read, node.inputs[0]? = some read ∧ read.node = producer := by
        simpa [Graph.producer, found] using fed
      exact ⟨0, read.slot, node, found, listed⟩
    obtain ⟨hangs, leadsTo⟩ := inductionHypothesis feedsPlace
    have leadsOn (other : NodeId) (among : other ∈ place :: (chain ++ [constant])) :
        TransGen graph.Feeds other reader := by
      rcases List.mem_cons.mp among with rfl | later
      · exact .single feeds
      · exact (leadsTo other later).tail feeds
    refine ⟨⟨?_, ?_, ?_, ?_⟩, leadsOn⟩
    · exact List.nodup_cons.mpr ⟨fun among => sound.acyclic reader (leadsOn reader among),
        hangs.distinct⟩
    · intro other among
      rcases List.mem_cons.mp among with rfl | later
      · exact ⟨node, found⟩
      · exact hangs.live other later
    · intro other among next feedsNext
      rcases List.mem_cons.mp among with rfl | later
      · exact sound.reader_unique single feeds feedsNext ▸ List.mem_cons_self
      · exact List.mem_cons_of_mem _ (hangs.closed other later next feedsNext)
    · refine List.pairwise_cons.mpr ⟨fun other later feedsBack => ?_, hangs.turns⟩
      exact sound.acyclic place (.head feedsBack (leadsTo other later))

/-- A constant holds a tensor of its shape. The typing rule read the shape off the
tensor. -/
theorem Sound.constant_value (sound : graph.Sound) {node : Node α}
    (found : graph.node id = some node) (kind : node.kind = .constant) :
    ∃ value type, graph.constantValue id = some value ∧ graph.outputType ⟨id, 0⟩ = some type ∧
      value.shape = type.shape := by
  obtain ⟨inputs, known, typed⟩ := sound.fresh id node found
  obtain ⟨type, ruled, sole⟩ := inferOutputs_eq_ok_iff.mp typed
  rw [kind] at ruled
  obtain ⟨_, -, reading⟩ := bind_eq_ok_iff.mp (show Typing.constantType _ = .ok type from ruled)
  obtain ⟨value, stated, same⟩ := bind_eq_ok_iff.mp reading
  refine ⟨value, type, ?_, ?_, congrArg TensorType.shape (Except.ok.inj same)⟩
  · simpa [constantValue, found, kind] using Attributes.requireTensor_eq_ok_iff.mp stated
  · simp [Graph.outputType, found, Node.outputType_eq, sole]

/-- The layout operations at these places can yield arrays of their types. -/
def CanLay (graph : Graph α) (chain : List NodeId) : Prop :=
  ∀ place ∈ chain, ∀ node type, graph.node place = some node → node.outputType 0 = some type →
    node.kind.CanYield type.shape

omit [Arithmetic α] in
/-- Of a way that goes on, the first operation can do so and the others can. An
array may be too large in the middle of a way and small enough at its end. -/
theorem canLay_cons {place : NodeId} {node : Node α} {type : TensorType}
    (found : graph.node place = some node) (typed : node.outputType 0 = some type) :
    graph.CanLay (place :: chain) ↔ node.kind.CanYield type.shape ∧ graph.CanLay chain := by
  refine List.forall_mem_cons.trans (and_congr_left fun _ => ?_)
  constructor
  · intro yields
    exact yields node type found typed
  · intro yields other otherType foundOther typedOther
    obtain rfl : node = other := Option.some.inj (found.symm.trans foundOther)
    obtain rfl : type = otherType := Option.some.inj (typed.symm.trans typedOther)
    exact yields

omit [Arithmetic α] in
/-- Where every value has a shape that an array can have, all of them can. The
shapes on a way are those of values in the graph. -/
theorem Storable.canLay (stored : graph.Storable) (chain : List NodeId) : graph.CanLay chain :=
  fun place _ _ type found typed _ =>
    stored ⟨place, 0⟩ type (by simpa [Graph.outputType, found] using typed)

/-- The operations on the way can be carried out on the constant if they can yield arrays of their
types, and then the outcome is no larger than arrays can be, unless the constant is. If some of them
cannot, that is what carrying them out fails for. -/
theorem ChainTo.evaluate (leads : graph.ChainTo source chain constant) (sound : graph.Sound) :
    ∃ stored type, graph.constantValue constant = some stored ∧
      graph.outputType ⟨source, 0⟩ = some type ∧
      (graph.CanLay chain → (stored.shape.Storable → type.shape.Storable) ∧
        ∃ laidOut, graph.evaluateChain chain.reverse stored = .ok laidOut ∧
          laidOut.shape = type.shape) ∧
      (¬ graph.CanLay chain → graph.evaluateChain chain.reverse stored =
        .error (.internal (.layout .tooLarge))) := by
  induction leads with
  | constant found _ kind =>
    obtain ⟨value, type, holds, typed, shaped⟩ := sound.constant_value found kind
    refine ⟨value, type, holds, typed, fun _ => ⟨fun small => shaped ▸ small, value, rfl, shaped⟩,
      fun large => absurd (fun _ among => absurd among List.not_mem_nil) large⟩
  | @layout place producer constant node chain found single kind fed rest inductionHypothesis =>
    obtain ⟨stored, type, holds, typed, carries, refuses⟩ := inductionHypothesis
    obtain ⟨read, input, reads, first, known, inferred⟩ :=
      sound.sole_input found (OpKind.isUnary_of_isLayout kind)
    obtain rfl : read.node = producer := by simpa [Graph.producer, found, reads] using fed
    have slot : (⟨read.node, 0⟩ : OutputRef) = read := by rw [← first]
    obtain rfl : input = type := Option.some.inj (known.symm.trans (slot ▸ typed))
    obtain ⟨own, -, sole⟩ := inferOutputs_eq_ok_iff.mp inferred
    have typedPlace : node.outputType 0 = some own := by rw [Node.outputType_eq, sole]; rfl
    have splits : graph.CanLay (place :: chain) ↔
        node.kind.CanYield own.shape ∧ graph.CanLay chain := canLay_cons found typedPlace
    have lastStep (middle : Tensor α)
        (carried : graph.evaluateChain chain.reverse stored = .ok middle) :
        graph.evaluateChain (place :: chain).reverse stored = node.evaluate middle := by
      rw [List.reverse_cons, evaluateChain_append, carried, ok_bind, evaluateChain,
        nodeAt_of_node found, ok_bind]
      cases node.evaluate middle <;> rfl
    refine ⟨stored, own, holds, by simpa [Graph.outputType, found] using typedPlace, ?_, ?_⟩
    · intro lays
      obtain ⟨yields, laysRest⟩ := splits.mp lays
      obtain ⟨small, middle, carried, shaped⟩ := carries laysRest
      obtain ⟨type, types, outcome, -⟩ := Node.evaluate_of_typed kind inferred shaped
      obtain rfl : own = type := List.singleton_inj.mp (sole.symm.trans types)
      obtain ⟨next, evaluated, shape⟩ := outcome yields
      exact ⟨fun start => Typing.storable_of_typed kind (sole ▸ inferred) yields (small start),
        next, (lastStep middle carried).trans evaluated, shape⟩
    · intro blocked
      by_cases laysRest : graph.CanLay chain
      · obtain ⟨-, middle, carried, shaped⟩ := carries laysRest
        obtain ⟨type, types, -, outcome⟩ := Node.evaluate_of_typed kind inferred shaped
        obtain rfl : own = type := List.singleton_inj.mp (sole.symm.trans types)
        exact (lastStep middle carried).trans
          (outcome fun yields => blocked (splits.mpr ⟨yields, laysRest⟩))
      · rw [List.reverse_cons, evaluateChain_append, refuses laysRest, error_bind]

/-- A plan fits the graph: the constant has the name and type of the range, and the way to
the old one begins at what the range reads. -/
structure Foldable (graph : Graph α) (id : NodeId) (plan : FoldPlan α) : Prop where
  kind : graph.kindAt id = some .quantizeRange
  named : graph.nameAt id = some plan.name
  typed : graph.outputType ⟨id, 0⟩ = some ⟨plan.element, plan.value.shape⟩
  leads : ∃ source, graph.Feeds source id ∧ graph.ChainTo source plan.chain plan.constant

/-- Asked for a plan at a range, a sound graph has nothing to fold, or a range that does not pass the
check, or a way that cannot be carried out, or a plan for what lies behind the range. -/
theorem Sound.foldPlan_of_range (sound : graph.Sound) (limit : Nat) {node : Node α}
    (found : graph.node id = some node) (kind : node.kind = .quantizeRange) :
    ∃ range type, QuantRange.ofNode node = .ok range ∧ node.outputType 0 = some type ∧
      range.Fits type.shape ∧
      ((graph.foldingSource limit id = none ∧ foldPlan graph limit id = .ok none) ∨
        ∃ chain constant stored, graph.foldingSource limit id = some (chain, constant) ∧
          graph.constantValue constant = some stored ∧
          (graph.CanLay chain → stored.shape.Storable → type.shape.Storable) ∧
          ((∃ failure, range.validate node.name = .error failure ∧
              foldPlan graph limit id = .error failure) ∨
            (range.validate node.name = .ok () ∧ ¬ graph.CanLay chain ∧
              foldPlan graph limit id = .error (.internal (.layout .tooLarge))) ∨
            range.validate node.name = .ok () ∧ graph.CanLay chain ∧ ∃ value,
              graph.foldedValue node.name range chain constant = .ok value ∧
              graph.Foldable id ⟨node.name, type.element, value, chain, constant, range.levels⟩ ∧
              foldPlan graph limit id =
                .ok (some ⟨node.name, type.element, value, chain, constant, range.levels⟩))) := by
  obtain ⟨read, input, range, reads, first, known, type, -, stated, fits⟩ :=
    sound.range_states found kind
  have own := kindAt_eq_some_iff.mpr ⟨node, found, kind⟩
  have typed : graph.outputType ⟨id, 0⟩ = some input := by
    simpa [Graph.outputType, found] using type
  have start : foldPlan graph limit id = match graph.foldingSource limit id with
      | none => .ok none
      | some (chain, constant) => range.validate node.name >>= fun _ =>
          graph.foldedValue node.name range chain constant >>= fun value =>
            if value.shape ≠ input.shape then
              .error (.internal (.foldedShape node.name value.shape input.shape))
            else .ok (some ⟨node.name, input.element, value, chain, constant, range.levels⟩) := by
    rw [foldPlan, nodeAt_of_node found, ok_bind, type]
    dsimp only
    rw [stated, ok_bind]
    rfl
  refine ⟨range, input, stated, type, fits, ?_⟩
  cases walked : graph.foldingSource limit id with
  | none => exact .inl ⟨rfl, by rw [start, walked]⟩
  | some way =>
    obtain ⟨chain, constant⟩ := way
    have leads : graph.ChainTo read.node chain constant := by
      apply chainTo_of_constantBehind
      simpa [foldingSource, Graph.producer, found, reads] using walked
    obtain ⟨stored, between, holds, typedBetween, carries, refuses⟩ := leads.evaluate sound
    obtain rfl : between = input := by
      have slot : (⟨read.node, 0⟩ : OutputRef) = read := by rw [← first]
      rw [slot, known] at typedBetween
      exact (Option.some.inj typedBetween).symm
    simp only [start, walked]
    refine .inr ⟨chain, constant, stored, rfl, holds, fun lays => (carries lays).1, ?_⟩
    -- The range is checked before anything is laid out.
    cases valid : range.validate node.name with
    | error failure => exact .inl ⟨failure, rfl, rfl⟩
    | ok _ =>
      rw [ok_bind]
      by_cases lays : graph.CanLay chain
      · obtain ⟨-, laidOut, carried, shaped⟩ := carries lays
        have applied : range.apply node.name laidOut = .ok (range.snapped laidOut) :=
          QuantRange.apply_eq_ok_iff.mpr ⟨QuantRange.two_le_levels valid, shaped ▸ fits, rfl⟩
        have folded : graph.foldedValue node.name range chain constant =
            .ok (range.snapped laidOut) := by
          simp only [foldedValue, holds, carried, ok_bind, applied]
        have same : (range.snapped laidOut).shape = between.shape := shaped
        refine .inr (.inr ⟨rfl, lays, range.snapped laidOut, folded,
          ⟨own, ?_, ?_, read.node, ?_, leads⟩, ?_⟩)
        · exact nameAt_eq_some_iff.mpr ⟨node, found, rfl⟩
        · rw [typed, same]
        · exact ⟨0, read.slot, node, found, by simp [reads]⟩
        · rw [folded, ok_bind, if_neg (not_not_intro same)]
      · refine .inr (.inl ⟨rfl, lays, ?_⟩)
        simp only [foldedValue, holds, refuses lays, error_bind]

/-- Asked for a plan at a range, a sound graph has one, or nothing to fold, or a failure. The failure
is reported, unless a value is larger than arrays can be. -/
theorem Sound.foldPlan_cases (sound : graph.Sound) (limit : Nat)
    (kind : graph.kindAt id = some .quantizeRange) :
    (∃ failure, foldPlan graph limit id = .error failure ∧
        (graph.Storable → failure.isRecoverable = true)) ∨
      foldPlan graph limit id = .ok none ∨
      ∃ plan, graph.Foldable id plan ∧ foldPlan graph limit id = .ok (some plan) := by
  obtain ⟨node, found, own⟩ := kindAt_eq_some_iff.mp kind
  obtain ⟨range, type, -, typed, fits, ⟨-, none⟩ | ⟨chain, constant, stored, -, -, -,
    ⟨failure, refused, failed⟩ | ⟨-, blocked, failed⟩ | ⟨-, -, value, -, foldable, planned⟩⟩⟩ :=
      sound.foldPlan_of_range limit found own
  · exact .inr (.inl none)
  · refine .inl ⟨failure, failed, fun small => ?_⟩
    have fitting := small ⟨id, 0⟩ type (by simpa [Graph.outputType, found] using typed)
    exact QuantRange.recoverable_of_validate (fits.comparable fitting) refused
  · exact .inl ⟨_, failed, fun small => absurd (small.canLay chain) blocked⟩
  · exact .inr (.inr ⟨_, foldable, planned⟩)

/-- What a plan says fits the graph it was made for. Its constant has the type of
the range, and its nodes hang on the range. -/
theorem Sound.foldable_of_plan (sound : graph.Sound) {limit : Nat} {plan : FoldPlan α}
    (planned : foldPlan graph limit id = .ok (some plan)) : graph.Foldable id plan := by
  have kind : graph.kindAt id = some .quantizeRange := by
    obtain ⟨node, found, rest⟩ := bind_eq_ok_iff.mp planned
    cases typed : node.outputType 0 with
    | none => simp [typed] at rest
    | some type =>
      simp only [typed] at rest
      obtain ⟨range, stated, -⟩ := bind_eq_ok_iff.mp rest
      exact kindAt_eq_some_iff.mpr
        ⟨node, nodeAt_eq_ok_iff.mp found, QuantRange.kind_of_ofNode stated⟩
  rcases sound.foldPlan_cases limit kind with
    ⟨failure, refused, -⟩ | none | ⟨other, foldable, same⟩
  · cases refused.symm.trans planned
  · cases none.symm.trans planned
  · obtain rfl := Option.some.inj (Except.ok.inj (same.symm.trans planned))
    exact foldable

/-- A plan that fits is carried out. The new constant comes in for the range, the way to the old one
goes, and fewer nodes are left. -/
theorem Foldable.installConstant_eq {plan : FoldPlan α} (foldable : graph.Foldable id plan)
    (sound : graph.Sound) : ∃ node after, graph.node id = some node ∧
      installConstant id plan.name plan.element plan.value plan.chain plan.constant graph =
        (.ok graph.arena.length, after) ∧ after.Sound ∧ after.live < graph.live ∧
      ∀ other, after.node other = graph.successor id (id :: (plan.chain ++ [plan.constant]))
        ⟨.constant, plan.name, [], node.outputs, foldedAttributes plan.value plan.element⟩
          other := by
  obtain ⟨node, found, named⟩ := nameAt_eq_some_iff.mp foldable.named
  obtain ⟨again, foundAgain, kind⟩ := kindAt_eq_some_iff.mp foldable.kind
  obtain rfl : node = again := Option.some.inj (found.symm.trans foundAgain)
  obtain ⟨source, feeds, leads⟩ := foldable.leads
  obtain ⟨hangs, leadsTo⟩ := leads.hangs sound feeds
  obtain ⟨middle, adding, replacing, heir, counted, clearable, -, -, rejoined⟩ :=
    sound.supersede found (by simp [kind]) (by simp [kind])
      (findName_uniqueName graph (plan.name ++ "_folded"))
      (show ([] : List OutputRef).map graph.outputType = ([] : List TensorType).map some from rfl)
      (inferOutputs_folded _ plan.value plan.element) foldable.typed (by simp) hangs (by simp)
  rw [named] at heir
  have new : graph.arena.length ∉ plan.chain ++ [plan.constant] := fun among => by
    obtain ⟨old, live⟩ := hangs.live _ among
    exact ne_of_node live rfl
  -- A reader of the range among what is cleared would close a cycle.
  have stay (reader : NodeId) (reads : graph.Feeds id reader) :
      reader ∉ id :: (plan.chain ++ [plan.constant]) := by
    intro gone
    rcases List.mem_cons.mp gone with rfl | behind
    · exact sound.acyclic reader (.single reads)
    · exact sound.acyclic id (.head reads (leadsTo reader behind))
  obtain ⟨removed, -, countedLess⟩ := heir.sound.removeEach_eq clearable
  obtain ⟨after, renamed, soundAfter, same, -⟩ := (heir.cleared clearable new).renameNode_eq
  have left (other : NodeId) : (middle.cleared (plan.chain ++ [plan.constant])).node other =
      graph.successor id (id :: (plan.chain ++ [plan.constant]))
        ⟨.constant, graph.uniqueName (plan.name ++ "_folded"), [], node.outputs,
          foldedAttributes plan.value plan.element⟩ other := by
    rw [rejoined, ← sound.outputs_eq found foldable.typed]
    exact sound.node_succession found new stay other
  refine ⟨node, after, found, ?_, soundAfter, ?_, node_renamed_heir renamed left⟩
  · rw [installConstant, read_bind]
    show (addNode .constant _ [] (foldedAttributes plan.value plan.element) >>= _) graph = _
    rw [bind_of_ok adding, bind_of_ok (orElse_of_ok replacing), removeEach_concat,
      bind_of_ok removed, bind_of_ok renamed]
    rfl
  · rw [List.length_append, List.length_singleton] at countedLess
    omega

end Graph

section Passes

variable [Arithmetic α] {graph : Graph α} {id : NodeId}

/-- Installing a plan that fits changes the graph, and notes the levels that the new constant is
snapped to. -/
theorem Graph.Foldable.install_eq {progress : Progress α} {plan : FoldPlan α}
    (foldable : progress.graph.Foldable id plan) (sound : progress.graph.Sound) :
    ∃ node after, progress.graph.node id = some node ∧
      plan.install id progress = (.ok true,
        ⟨after, progress.journal.annotate progress.graph.arena.length plan.levels⟩) ∧
      after.Sound ∧ after.live < progress.graph.live ∧
      ∀ other, after.node other = progress.graph.successor id
        (id :: (plan.chain ++ [plan.constant]))
        ⟨.constant, plan.name, [], node.outputs, foldedAttributes plan.value plan.element⟩
          other := by
  obtain ⟨node, after, found, installed, soundAfter, fewer, left⟩ :=
    foldable.installConstant_eq sound
  have step : Progress.onGraph (installConstant id plan.name plan.element plan.value plan.chain
      plan.constant) progress =
        (.ok progress.graph.arena.length, ⟨after, progress.journal⟩) := by
    rw [Progress.onGraph_apply, installed]
  refine ⟨node, after, found, ?_, soundAfter, fewer, left⟩
  rw [FoldPlan.install, bind_of_ok step]
  rfl

/-- A folding answers what looking for a plan comes to. What was planned is
installed without failing. -/
theorem foldRange_answers_plan {progress : Progress α} (sound : progress.graph.Sound) (limit : Nat)
    (id : NodeId) : (foldRange limit id progress).1 =
      (foldPlan progress.graph limit id).map Option.isSome := by
  rw [foldRange_eq]
  rcases planned : foldPlan progress.graph limit id with failure | _ | plan
  · rfl
  · rfl
  · obtain ⟨_, _, -, installed, -⟩ := (sound.foldable_of_plan planned).install_eq sound
    exact congrArg Prod.fst installed

/-- The folding admits ranges. -/
theorem range_of_admits {limit : Nat}
    (admitted : (constantFolding limit : Pass α).admits graph id = true) :
    graph.kindAt id = some .quantizeRange :=
  Graph.kindAt_eq_some_iff.mpr (Pattern.kind_of_matchAt rfl admitted)

/-- It admits every range of a sound graph, because a range reads something. -/
theorem Graph.Sound.admits_range (sound : graph.Sound) {limit : Nat}
    (kind : graph.kindAt id = some .quantizeRange) :
    (constantFolding limit : Pass α).admits graph id = true := by
  obtain ⟨node, found, own⟩ := kindAt_eq_some_iff.mp kind
  obtain ⟨read, reads, -⟩ := sound.sole_source found (by rw [own]; rfl)
  obtain ⟨slot, live⟩ := sound.linked.produced ⟨id, 0⟩ read ⟨node, found, by simp [reads]⟩
  obtain ⟨producer, foundProducer, -⟩ := outputSlot_eq_some_iff.mp live
  have unbound : List.lookup "src" [("q", id)] = none := rfl
  simp [constantFolding, Pattern.quantizeRange, Pattern.ofKind, Pattern.ofTest, Pattern.labelled,
    Pattern.withChild, Pattern.anything, Pattern.matchAt, Pattern.layOn, Pattern.layAll, found,
    foundProducer, reads, Pattern.admits, KindTest.accepts, own, Binding.bindLabel, Binding.get,
    Binding.start, Binding.lay, unbound]

/-- The answer of a folding is that of its plan. -/
theorem foldRange_answer (limit : Nat) (id : NodeId) (graph : Graph α) (first second : Journal) :
    (foldRange limit id ⟨graph, first⟩).1 = (foldRange limit id ⟨graph, second⟩).1 := by
  rw [foldRange_eq, foldRange_eq]
  cases foldPlan graph limit id with
  | error failure => rfl
  | ok planned =>
    cases planned with
    | none => rfl
    | some plan =>
      rcases installed : installConstant id plan.name plan.element plan.value plan.chain
        plan.constant graph with ⟨_ | folded, after⟩ <;>
        simp [FoldPlan.install, bind_apply, andThen, Progress.onGraph_apply, installed,
          Progress.note]

/-- Folding is reliable under every limit on the length of the chains it follows. -/
theorem constantFolding_reliable (limit : Nat) : (constantFolding limit : Pass α).Reliable where
  verdict progress id sound admitted := by
    have start := foldRange_eq limit id progress
    rcases sound.foldPlan_cases limit (range_of_admits admitted) with
      ⟨failure, refused, reported⟩ | none | ⟨plan, foldable, planned⟩
    · rw [refused] at start
      exact .of_failed start reported
    · rw [none] at start
      exact .declines start
    · rw [planned] at start
      obtain ⟨_, _, found, installed, soundAfter, fewer, left⟩ := foldable.install_eq sound
      exact .changes (start.trans installed) soundAfter fewer
        (Graph.inherits_of_successor found left rfl)
  fewer progress id after sound applied := by
    rw [show (constantFolding limit).apply id progress = _ from foldRange_eq limit id progress]
      at applied
    cases planned : foldPlan progress.graph limit id with
    | error failure => simp [planned] at applied
    | ok found =>
      cases found with
      | none => simp [planned] at applied
      | some plan =>
        simp only [planned] at applied
        obtain ⟨_, _, -, installed, -, fewer, -⟩ :=
          (sound.foldable_of_plan planned).install_eq sound
        obtain ⟨-, rfl⟩ := Prod.mk.inj (installed.symm.trans applied)
        exact fewer
  answer id graph first second := foldRange_answer limit id graph first second
  live graph id admitted := by
    obtain ⟨node, found, -⟩ := Graph.kindAt_eq_some_iff.mp (range_of_admits admitted)
    exact ⟨node, found⟩
  applicable graph id admitted := by
    obtain ⟨node, found, kind⟩ := Graph.kindAt_eq_some_iff.mp (range_of_admits admitted)
    have present := Graph.hasKind_of_node found
    rwa [kind] at present

end Passes

end RangeFold
