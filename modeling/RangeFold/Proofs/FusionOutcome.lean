import RangeFold.Proofs.Fusion
import RangeFold.Proofs.Quantization.Validity

/-!
# What a fusion does

A fusion may absorb an operation if nothing else reads the range before it, if the type stays, and
if the constant keeps the order of levels. Then the constant stretches to the type of the range, as
the bounds do. If an array can have the type's shape, the constant can be combined with the bounds
and the outcome fits again: the tests of shapes decide nothing. What is left to ask is whether the
ranges before and after the edit are valid, and a range that is not is reported. In all other cases
the fusion declines.

Where no array can have the type's shape, the bounds and the constant may have a common shape that is
too large as well. Then they are not combined, and the fusion declines.

When it fuses, a new range has the name, the type and the readers of the operation and reads what
the range before read. The operation and that range are gone, and so is the constant if nothing else
read it. No other node is touched but where it read the operation.
-/

namespace RangeFold

open Attempt

variable {α : Type} [Arithmetic α]

/-- How an operation with a constant edits the output bounds of the range before it. -/
def OpKind.boundEdit (kind : OpKind) (constant : Tensor α) (range : QuantRange α) :
    Option (QuantRange α) :=
  match kind with
  | .multiply => range.mapOutput Arithmetic.mul constant
  | .add => range.mapOutput Arithmetic.add constant
  | .subtract => range.mapOutput Arithmetic.add (constant.map Arithmetic.neg)
  | _ => none

/-- A constant that keeps the order of levels: it is finite throughout, and as a factor it is
positive. -/
def OpKind.KeepsOrder (kind : OpKind) (constant : Tensor α) : Prop :=
  ∀ value ∈ constant.data, Arithmetic.isFinite value = true ∧
    (kind = .multiply → Arithmetic.lt (Arithmetic.ofInt 0) value = true)

section Edits

variable {constant : Tensor α}

/-- The test on scales is that multiplying by them keeps the order. -/
theorem isScale_iff : isScale constant = true ↔ OpKind.multiply.KeepsOrder constant := by
  simp [isScale, OpKind.KeepsOrder]

/-- The test on shifts is that adding or subtracting them keeps the order, for which
they only need to be finite. -/
theorem isShift_iff {kind : OpKind} (other : kind ≠ .multiply) :
    isShift constant = true ↔ kind.KeepsOrder constant := by
  simp [isShift, OpKind.KeepsOrder, other]

/-- Output bounds that are combined with an operand that stretches to the same shape still fit it. They
can be combined if an array can have the shape. -/
theorem QuantRange.Fits.mapOutput {range : QuantRange α} {operand : Tensor α} {shape : Shape}
    (fits : range.Fits shape) (stretches : operand.shape.fits shape = true)
    (function : α → α → α) :
    (∀ edited, range.mapOutput function operand = some edited → edited.Fits shape) ∧
      (shape.Storable → ∃ edited, range.mapOutput function operand = some edited) := by
  obtain ⟨-, -, outputLow, outputHigh⟩ := fits_iff.mp fits
  constructor
  · intro edited mapped
    obtain ⟨low, high, lowCombined, highCombined, rfl⟩ := mapOutput_eq_some_iff.mp mapped
    exact fits.of_inputs ⟨rfl, rfl⟩ (Tensor.fits_of_combine lowCombined outputLow stretches)
      (Tensor.fits_of_combine highCombined outputHigh stretches)
  · intro stored
    obtain ⟨low, lowCombined, -⟩ := Tensor.combine_of_fits function outputLow stretches stored
    obtain ⟨high, highCombined, -⟩ := Tensor.combine_of_fits function outputHigh stretches stored
    exact ⟨_, mapOutput_eq_some_iff.mpr ⟨low, high, lowCombined, highCombined, rfl⟩⟩

/-- The same holds of the edit that an elementwise operation makes with its
constant. The three kinds differ in the function only. -/
theorem OpKind.boundEdit_of_fits {kind : OpKind} {combiner : α → α → α}
    (combines : kind.combination = some combiner) {range : QuantRange α} {shape : Shape}
    (fits : range.Fits shape) (stretches : constant.shape.fits shape = true) :
    (∀ edited, kind.boundEdit constant range = some edited → edited.Fits shape) ∧
      (shape.Storable → ∃ edited, kind.boundEdit constant range = some edited) := by
  rcases OpKind.combination_cases combines with rfl | rfl | rfl
  · exact fits.mapOutput stretches Arithmetic.add
  · have stretchesToo : (constant.map Arithmetic.neg).shape.fits shape = true := stretches
    exact fits.mapOutput stretchesToo Arithmetic.add
  · exact fits.mapOutput stretches Arithmetic.mul

/-- An edit of the output bounds leaves the input bounds. It leaves the levels as
well. -/
theorem OpKind.inputs_boundEdit {kind : OpKind} {range edited : QuantRange α}
    (edits : kind.boundEdit constant range = some edited) :
    edited.inputLow = range.inputLow ∧ edited.inputHigh = range.inputHigh := by
  unfold boundEdit at edits
  split at edits
  · exact QuantRange.inputs_mapOutput edits
  · exact QuantRange.inputs_mapOutput edits
  · exact QuantRange.inputs_mapOutput edits
  · cases edits

end Edits

variable {graph : Graph α} {id : NodeId} {operation : Node α} {pass : Pass α}

/-- What a fusion does at an operation that it admits, as far as the constant
decides it. Nothing about sizes is known at this point. -/
theorem Pass.edit_of_admits (fusion : pass = scaleFusion ∨ pass = shiftFusion)
    (sound : graph.Sound) (found : graph.node id = some operation)
    (admitted : pass.admits graph id = true) :
    (∃ combiner : α → α → α, operation.kind.combination = some combiner) ∧
      ∃ edit : Graph α → NodeId → Option (FusionEdit α),
        pass.apply id = Progress.onGraph (fuseBy edit id) ∧ ∃ site constant,
          graph.fusionSite id (operation.kind != .subtract) = some site ∧
          graph.constantValue site.constant = some constant ∧
          (operation.kind.KeepsOrder constant →
            edit graph id = some (site, operation.kind.boundEdit constant)) ∧
          (¬ operation.kind.KeepsOrder constant → edit graph id = none) := by
  have stored {commutative : Bool} {site : FusionSite}
      (chosen : graph.fusionSite id commutative = some site) :
      ∃ constant, graph.constantValue site.constant = some constant := by
    obtain ⟨node, foundConstant, kind⟩ :=
      Graph.kindAt_eq_some_iff.mp (Graph.fuses_of_fusionSite chosen).2.constant
    obtain ⟨value, _, holds, -⟩ := sound.constant_value foundConstant kind
    exact ⟨value, holds⟩
  rcases fusion with rfl | rfl
  · obtain ⟨node, site, again, kind, chosen⟩ := multiplication_of_admits admitted
    obtain rfl : operation = node := Option.some.inj (found.symm.trans again)
    obtain ⟨constant, holds⟩ := stored chosen
    rw [kind]
    refine ⟨⟨Arithmetic.mul, rfl⟩, scaleEdit, scaleFusion_apply id, site, constant, chosen, holds,
      fun keeps => ?_, fun changes => ?_⟩
    · simp only [scaleEdit, chosen, holds, isScale_iff.mpr keeps, Option.bind_eq_bind,
        Option.bind_some, if_true]
      rfl
    · simp [scaleEdit, chosen, holds, mt isScale_iff.mp changes]
  · obtain ⟨⟨site, signed⟩, here⟩ := Option.isSome_iff_exists.mp admitted
    -- Addition and subtraction differ in the side of the constant and in its sign only.
    have shifts {kind : OpKind} (other : kind ≠ .multiply)
        (edits : ∀ constant : Tensor α, kind.boundEdit constant =
          fun range => range.mapOutput Arithmetic.add (signed constant))
        (chosen : graph.fusionSite id (kind != .subtract) = some site) :
        ∃ edit : Graph α → NodeId → Option (FusionEdit α),
          shiftFusion.apply id = Progress.onGraph (fuseBy edit id) ∧ ∃ site constant,
            graph.fusionSite id (kind != .subtract) = some site ∧
            graph.constantValue site.constant = some constant ∧
            (kind.KeepsOrder constant → edit graph id = some (site, kind.boundEdit constant)) ∧
            (¬ kind.KeepsOrder constant → edit graph id = none) := by
      obtain ⟨constant, holds⟩ := stored chosen
      exact ⟨shiftEdit, shiftFusion_apply id, site, constant, chosen, holds,
        fun keeps => by simp [shiftEdit, here, holds, (isShift_iff other).mpr keeps, edits],
        fun changes => by simp [shiftEdit, here, holds, mt (isShift_iff other).mp changes]⟩
    obtain ⟨node, _, again, kind | kind, -⟩ := shiftSite_eq_some here
    all_goals obtain rfl : operation = node := Option.some.inj (found.symm.trans again)
    · obtain ⟨chosen, rfl⟩ : graph.fusionSite id true = some site ∧ _ = signed := by
        simpa [shiftSite, found, kind] using here
      rw [kind]
      exact ⟨⟨Arithmetic.add, rfl⟩, shifts (by decide) (fun _ => rfl) chosen⟩
    · obtain ⟨chosen, rfl⟩ : graph.fusionSite id false = some site ∧ _ = signed := by
        simpa [shiftSite, found, kind] using here
      rw [kind]
      exact ⟨⟨Arithmetic.sub, rfl⟩, shifts (by decide) (fun _ => rfl) chosen⟩

namespace Graph

/-- An operation may be absorbed by the range before it, as far as the ranges are valid: nothing
else reads that range, the operation passes its type on, and the constant keeps the order of its
levels. -/
structure Absorbs (graph : Graph α) (site : FusionSite) (rangeNode operation : Node α)
    (constant : Tensor α) : Prop where
  single : graph.isSingleUse site.range = true
  keeps : rangeNode.outputType 0 = operation.outputType 0
  ordered : operation.kind.KeepsOrder constant

/-- What a fusion leaves. The operation has gone with the range, and with the constant just if only
the operation read it. A new range has the name, the type and the readers of the operation and reads
what the range before read. The other nodes are as they were but for their edges to these. -/
structure FusedTo (graph : Graph α) (site : FusionSite) (operation : Node α) (source : OutputRef)
    (edited : QuantRange α) (after : Graph α) : Prop where
  sound : after.Sound
  constant : after.node site.constant = none ↔
    ∀ reader, graph.Feeds site.constant reader → reader = site.operation
  left : ∀ other, after.node other =
    graph.successor site.operation (site.operation :: graph.fusedAway site)
      ⟨.quantizeRange, operation.name, [source], operation.outputs, edited.toAttributes⟩ other

variable {site : FusionSite} {rangeNode : Node α} {constant : Tensor α}

/-- Where an operation passes the type of a range on, edited bounds still fit what the range reads. They
can be edited if an array can have the shape of that. -/
theorem Sound.boundEdit_fits (sound : graph.Sound) {commutative : Bool}
    (chosen : graph.fusionSite id commutative = some site)
    (found : graph.node id = some operation) {combiner : α → α → α}
    (combines : operation.kind.combination = some combiner)
    (holds : graph.constantValue site.constant = some constant)
    (foundRange : graph.node site.range = some rangeNode) {input : TensorType}
    (typed : rangeNode.outputType 0 = some input) {range : QuantRange α}
    (fits : range.Fits input.shape) (keeps : rangeNode.outputType 0 = operation.outputType 0) :
    (∀ edited, operation.kind.boundEdit constant range = some edited → edited.Fits input.shape) ∧
      (input.shape.Storable → ∃ edited, operation.kind.boundEdit constant range = some edited) := by
  have typedRange : graph.outputType ⟨site.range, 0⟩ = some input := by
    simp [outputType, foundRange, typed]
  refine OpKind.boundEdit_of_fits combines fits ?_
  rcases sound.joins_of_fusionSite chosen found combines holds typedRange (keeps ▸ typed) with
    ⟨-, joins⟩ | ⟨-, joins⟩
  · exact (Shape.fits_of_broadcast joins).2
  · exact (Shape.fits_of_broadcast joins).1

variable {edit : QuantRange α → Option (QuantRange α)}

/-- A fusion that has a range to offer leaves it in the place of the operation. Its
readers, its name and its type pass to the range. -/
theorem Fuses.fuseInto_of_offer (fuses : graph.Fuses site) (sound : graph.Sound)
    (found : graph.node site.operation = some operation)
    (keeps : ∀ range edited, edit range = some edited →
      edited.inputLow = range.inputLow ∧ edited.inputHigh = range.inputHigh)
    {source : OutputRef} {edited : QuantRange α}
    (offered : fusedRange graph site edit = .ok (some (operation.name, source, edited))) :
    ∃ after, fuseInto site edit graph = (.ok true, after) ∧
      graph.FusedTo site operation source edited after := by
  have fusible := fuses.fusible_of_offer sound keeps offered
  obtain ⟨again, after, foundAgain, applied, soundAfter, -, left⟩ :=
    fusible.fuseInto_eq sound fuses offered
  obtain rfl : operation = again := Option.some.inj (found.symm.trans foundAgain)
  refine ⟨after, applied, soundAfter, ?_, left⟩
  obtain ⟨constant, foundConstant, -⟩ := kindAt_eq_some_iff.mp fuses.constant
  have away : site.constant ∈ site.operation :: graph.fusedAway site ↔
      ∀ reader, graph.Feeds site.constant reader → reader = site.operation := by
    simp [fuses.constant_ne_operation sound, sound.linked.mem_fusedAway_iff, fuses.apart]
  rw [left, successor, if_neg (ne_of_node foundConstant), foundConstant, ← away]
  split
  · rename_i gone
    exact iff_of_true rfl gone
  · rename_i stays
    exact iff_of_false (Option.some_ne_none _) stays

/-- A fusion by an edit that keeps bounds fitting wherever the type stays. It is offered where the range
has no other reader and the type stays, and then the validity of the ranges decides alone. -/
theorem Fuses.fuseInto_outcome (fuses : graph.Fuses site) (sound : graph.Sound)
    (foundRange : graph.node site.range = some rangeNode)
    (found : graph.node site.operation = some operation)
    (keeps : ∀ range edited, edit range = some edited →
      edited.inputLow = range.inputLow ∧ edited.inputHigh = range.inputHigh)
    (editable : ∀ input (range : QuantRange α), rangeNode.outputType 0 = some input →
      range.Fits input.shape → rangeNode.outputType 0 = operation.outputType 0 →
      ∀ edited, edit range = some edited → edited.Fits input.shape) :
    ∃ source input range, rangeNode.inputs = [source] ∧ graph.outputType source = some input ∧
      rangeNode.outputType 0 = some input ∧ QuantRange.ofNode rangeNode = .ok range ∧
      range.Fits input.shape ∧
      (∀ edited, edit range = some edited → graph.isSingleUse site.range = true →
        rangeNode.outputType 0 = operation.outputType 0 → range.Comparable → edited.Comparable →
          (range.Valid → edited.Valid → ∃ after, fuseInto site edit graph = (.ok true, after) ∧
            graph.FusedTo site operation source edited after) ∧
          (¬ (range.Valid ∧ edited.Valid) → ∃ failure,
            fuseInto site edit graph = (.error failure, graph) ∧ failure.isRecoverable = true)) ∧
      (¬ (graph.isSingleUse site.range = true ∧
          rangeNode.outputType 0 = operation.outputType 0) →
        fuseInto site edit graph = (.ok false, graph)) := by
  obtain ⟨source, input, range, inputs, known, typed, stated, fits, start⟩ :=
    fuses.fusedRange_eq sound foundRange found
  refine ⟨source, input, range, inputs, known, typed, stated, fits,
    fun edited edits single same comparable comparableEdited => ?_, fun qualifies => ?_⟩
  · -- The edited bounds fit the input, so only the two checks are left of the offer.
    have offer : fusedRange graph site edit =
        range.validate rangeNode.name >>= fun _ => edited.validate operation.name >>= fun _ =>
          pure (some (operation.name, source, edited)) := by
      obtain ⟨-, -, low, high⟩ :=
        QuantRange.fits_iff.mp (editable input range typed fits same edited edits)
      rw [start, if_pos ⟨single, same⟩]
      simp only [edits, Option.elim_some, low, high, Bool.and_self, if_true]
    constructor
    · intro valid validEdited
      exact fuses.fuseInto_of_offer sound found keeps (offer.trans
        (QuantRange.validate_both_eq_ok comparable comparableEdited valid validEdited))
    · intro invalid
      obtain ⟨failure, refused, recoverable⟩ :=
        QuantRange.validate_both_fails comparable comparableEdited invalid
      exact ⟨failure, fuseInto_of_error (offer.trans refused), recoverable⟩
  · exact fuseInto_of_none (by rw [start, if_neg qualifies])

/-- A fusion that makes a change has offered the edited range, so the range and its
edit have both passed the check. -/
theorem passed_of_fuseBy {edits : Graph α → NodeId → Option (FusionEdit α)}
    (chosen : edits graph id = some (site, edit)) (foundRange : graph.node site.range = some rangeNode)
    {range : QuantRange α} (stated : QuantRange.ofNode rangeNode = .ok range)
    (changed : (fuseBy edits id graph).1 = .ok true) :
    (range.Valid ∧ range.Comparable) ∧
      ∃ edited, edit range = some edited ∧ edited.Valid ∧ edited.Comparable := by
  obtain ⟨_, _, offer, again, found⟩ := offer_of_fuseBy (eq_of_answer changed)
  obtain ⟨rfl, rfl⟩ := Prod.mk.inj (Option.some.inj (chosen.symm.trans again))
  obtain ⟨-, _, _, _, _, foundToo, -, -, -, -, -, statedToo, passed, edited, -, -, passedEdited⟩ :=
    fusedRange_eq_some_iff.mp found
  obtain rfl := Option.some.inj (foundRange.symm.trans foundToo)
  obtain rfl := Except.ok.inj (stated.symm.trans statedToo)
  exact ⟨QuantRange.validate_eq_ok_iff.mp passed, _, edited,
    QuantRange.validate_eq_ok_iff.mp passedEdited⟩

end Graph

/-- A fusion at an operation that it admits in a reachable graph finds a range and a constant there.
If the operation keeps the type of the range, and an array can have its shape, the output bounds can be
edited, the edited range fits its input, and the bounds of both ranges can be compared. The fusion
fuses exactly if it absorbs the operation and the ranges before and after the edit are valid, as far
as their bounds can be compared. If it absorbs the operation but one of them is not valid it reports
that, and if it does not absorb the operation it declines. Only a fusion changes anything. -/
theorem fusion_outcome (reachable : graph.Reachable)
    (fusion : pass = scaleFusion ∨ pass = shiftFusion) (found : graph.node id = some operation)
    (admitted : pass.admits graph id = true) (journal : Journal) :
    ∃ site constant rangeNode source range,
      graph.fusionSite id (operation.kind != .subtract) = some site ∧
      graph.constantValue site.constant = some constant ∧
      graph.node site.range = some rangeNode ∧ rangeNode.inputs = [source] ∧
      QuantRange.ofNode rangeNode = .ok range ∧
      (∀ type, operation.outputType 0 = some type → type.shape.Storable →
        rangeNode.outputType 0 = operation.outputType 0 →
          graph.outputType source = some type ∧ range.Comparable ∧
          ∃ edited, operation.kind.boundEdit constant range = some edited ∧
            edited.Fits type.shape ∧ edited.Comparable) ∧
      ((∃ after, pass.apply id ⟨graph, journal⟩ = (.ok true, after)) ↔
        graph.Absorbs site rangeNode operation constant ∧ (range.Valid ∧ range.Comparable) ∧
          ∃ edited, operation.kind.boundEdit constant range = some edited ∧
            edited.Valid ∧ edited.Comparable) ∧
      (∀ edited, graph.Absorbs site rangeNode operation constant →
        operation.kind.boundEdit constant range = some edited →
        range.Comparable → edited.Comparable → range.Valid → edited.Valid →
        ∃ after, pass.apply id ⟨graph, journal⟩ = (.ok true, ⟨after, journal⟩) ∧
          graph.FusedTo site operation source edited after) ∧
      (∀ edited, graph.Absorbs site rangeNode operation constant →
        operation.kind.boundEdit constant range = some edited →
        range.Comparable → edited.Comparable → ¬ (range.Valid ∧ edited.Valid) →
        ∃ failure, pass.apply id ⟨graph, journal⟩ = (.error failure, ⟨graph, journal⟩) ∧
          failure.isRecoverable = true) ∧
      (¬ graph.Absorbs site rangeNode operation constant →
        pass.apply id ⟨graph, journal⟩ = (.ok false, ⟨graph, journal⟩)) ∧
      ∀ answer after, pass.apply id ⟨graph, journal⟩ = (answer, after) → answer ≠ .ok true →
        after = ⟨graph, journal⟩ := by
  have sound := reachable.sound
  obtain ⟨⟨_, combines⟩, edit, applies, site, constant, chosen, holds, edits, blocked⟩ :=
    Pass.edit_of_admits fusion sound found admitted
  obtain ⟨rfl, fuses⟩ := Graph.fuses_of_fusionSite chosen
  obtain ⟨rangeNode, foundRange, -⟩ := Graph.kindAt_eq_some_iff.mp fuses.range
  have editable {input : TensorType} {range : QuantRange α}
      (typed : rangeNode.outputType 0 = some input) (fits : range.Fits input.shape)
      (keeps : rangeNode.outputType 0 = operation.outputType 0) :=
    sound.boundEdit_fits chosen found combines holds foundRange typed fits keeps
  obtain ⟨source, input, range, inputs, known, typed, stated, fits, offered, unoffered⟩ :=
    fuses.fuseInto_outcome sound foundRange found
      (fun _ _ edits => OpKind.inputs_boundEdit edits)
      fun input range typed fits keeps => (editable typed fits keeps).1
  -- Where the constant keeps the order, the pass answers as the fusion does.
  have answered {answer : Except Failure Bool} {after : Graph α}
      (ordered : operation.kind.KeepsOrder constant)
      (fused : fuseInto site (operation.kind.boundEdit constant) graph = (answer, after)) :
      pass.apply site.operation ⟨graph, journal⟩ = (answer, ⟨after, journal⟩) := by
    rw [applies, Progress.onGraph_apply, fuseBy, edits ordered]
    simp only [fused]
  have fusing (edited : QuantRange α) (absorbs : graph.Absorbs site rangeNode operation constant)
      (edits : operation.kind.boundEdit constant range = some edited)
      (comparable : range.Comparable) (comparableEdited : edited.Comparable)
      (valid : range.Valid) (validEdited : edited.Valid) : ∃ after,
        pass.apply site.operation ⟨graph, journal⟩ = (.ok true, ⟨after, journal⟩) ∧
          graph.FusedTo site operation source edited after := by
    obtain ⟨after, fused, left⟩ := (offered edited edits absorbs.single absorbs.keeps comparable
      comparableEdited).1 valid validEdited
    exact ⟨after, answered absorbs.ordered fused, left⟩
  have reporting (edited : QuantRange α)
      (absorbs : graph.Absorbs site rangeNode operation constant)
      (edits : operation.kind.boundEdit constant range = some edited)
      (comparable : range.Comparable) (comparableEdited : edited.Comparable)
      (invalid : ¬ (range.Valid ∧ edited.Valid)) : ∃ failure,
        pass.apply site.operation ⟨graph, journal⟩ = (.error failure, ⟨graph, journal⟩) ∧
          failure.isRecoverable = true := by
    obtain ⟨failure, refused, recoverable⟩ := (offered edited edits absorbs.single absorbs.keeps
      comparable comparableEdited).2 invalid
    exact ⟨failure, answered absorbs.ordered refused, recoverable⟩
  have declining (keeps : ¬ graph.Absorbs site rangeNode operation constant) :
      pass.apply site.operation ⟨graph, journal⟩ = (.ok false, ⟨graph, journal⟩) := by
    by_cases ordered : operation.kind.KeepsOrder constant
    · exact answered ordered (unoffered fun both => keeps ⟨both.1, both.2, ordered⟩)
    · rw [applies, Progress.onGraph_apply, fuseBy, blocked ordered]
  refine ⟨site, constant, rangeNode, source, range, chosen, holds, foundRange, inputs, stated,
    fun type own stored keeps => ?_, ⟨?_, ?_⟩, fusing, reporting, declining,
    fun answer after applied other => ?_⟩
  · obtain rfl : input = type := Option.some.inj (typed.symm.trans (keeps.trans own))
    obtain ⟨fitting, possible⟩ := editable typed fits keeps
    obtain ⟨edited, edits⟩ := possible stored
    have fitsEdited := fitting edited edits
    exact ⟨known, fits.comparable stored, edited, edits, fitsEdited, fitsEdited.comparable stored⟩
  · rintro ⟨after, changed⟩
    have absorbs : graph.Absorbs site rangeNode operation constant := by
      by_contra keeps
      cases (declining keeps).symm.trans changed
    have fused : (fuseBy edit site.operation graph).1 = .ok true := by
      rw [applies, Progress.onGraph_apply] at changed
      exact congrArg Prod.fst changed
    exact ⟨absorbs, Graph.passed_of_fuseBy (edits absorbs.ordered) foundRange stated fused⟩
  · rintro ⟨absorbs, ⟨valid, comparable⟩, edited, edits, validEdited, comparableEdited⟩
    obtain ⟨after, fused, -⟩ :=
      fusing edited absorbs edits comparable comparableEdited valid validEdited
    exact ⟨_, fused⟩
  · have reliable : pass.Reliable := by
      rcases fusion with rfl | rfl
      · exact scaleFusion_reliable
      · exact shiftFusion_reliable
    exact (reliable.verdict ⟨graph, journal⟩ site.operation sound admitted).unchanged applied other

section Squared

/-- A range is multiplied by the constant that it reads. -/
def squaredSession : List (Call Rat) :=
  [.add .constant "w" [] (Attributes.empty.insert "value" (.tensor (Tensor.vector [1, 2]))),
    .add .quantizeRange "q" [⟨0, 0⟩]
      (QuantRange.toAttributes ⟨.scalar 0, .scalar 2, .scalar 0, .scalar 2, 3⟩),
    .add .multiply "m" [⟨1, 0⟩, ⟨0, 0⟩] Attributes.empty,
    .add .result "r" [⟨2, 0⟩] Attributes.empty]

/-- The graph that the session builds. -/
def squared : Graph Rat := Call.performAll squaredSession Graph.empty

/-- The multiplication is absorbed, and the constant stays as it is still read. The
new range reads it as the old one did. -/
theorem squared_outcome :
    ∃ after, scaleFusion.apply 2 ⟨squared, Journal.fresh⟩ =
        (.ok true, ⟨after, Journal.fresh⟩) ∧ after.node 0 ≠ none ∧
      (after.node 4).map (fun fused => (fused.name, fused.inputs)) = some ("m", [⟨0, 0⟩]) ∧
      after.node 1 = none ∧ after.node 2 = none := by
  obtain ⟨operation, found, same⟩ : ∃ operation, squared.node 2 = some operation ∧
      (operation.name, operation.kind) = ("m", .multiply) :=
    Option.map_eq_some_iff.mp (by decide +kernel)
  obtain ⟨named, kind⟩ := Prod.mk.inj same
  have reachable : squared.Reachable := ⟨squaredSession, rfl⟩
  have fusion : (scaleFusion : Pass Rat) = scaleFusion ∨ (scaleFusion : Pass Rat) = shiftFusion :=
    .inl rfl
  obtain ⟨site, constant, rangeNode, source, range, chosen, -, foundRange, inputs, -, -, fuses,
    effect, -⟩ := fusion_outcome reachable fusion found (by decide +kernel) Journal.fresh
  have here : squared.fusionSite 2 true = some ⟨2, 1, 0⟩ := by decide +kernel
  obtain rfl : site = ⟨2, 1, 0⟩ := by
    rw [kind] at chosen
    exact Option.some.inj (chosen.symm.trans here)
  obtain rfl : source = ⟨0, 0⟩ := by
    have reads : (squared.node 1).map Node.inputs = some [⟨0, 0⟩] := by decide +kernel
    rw [foundRange, Option.map_some, inputs] at reads
    simpa using reads
  obtain ⟨absorbs, ⟨valid, comparable⟩, edited, edits, validEdited, comparableEdited⟩ :=
    fuses.mp ⟨_, Prod.ext (by decide +kernel : _ = Except.ok true) rfl⟩
  obtain ⟨after, applied, -, gone, left⟩ :=
    effect edited absorbs edits comparable comparableEdited valid validEdited
  have length : squared.arena.length = 4 := by decide +kernel
  have shared : squared.fusedAway ⟨2, 1, 0⟩ = [1] := by decide +kernel
  refine ⟨after, applied, fun none => ?_, ?_, ?_, ?_⟩
  · have read : squared.readers 0 = [1, 2] := by decide +kernel
    have feeds : squared.Feeds 0 1 := reachable.sound.linked.mem_readers_iff.mp (by simp [read])
    cases gone.mp none 1 feeds
  · simp [left, Graph.successor, length, named]
  · simp [left, Graph.successor, length, shared]
  · simp [left, Graph.successor, length, shared]

end Squared

section Outsized

/-- A tensor without elements, in a shape that has some other dimension beside the empty one. -/
def hollow (rest : Shape) : Tensor Rat := ⟨0 :: rest, [], (Nat.zero_mul _).symm⟩

/-- An entry without elements has very many rows of two columns. The bounds of a range spread over
its rows, and a factor over its columns. -/
def outsizedSession : List (Call Rat) :=
  [.add .parameter "x" [] (Attributes.empty.insert "shape" (.shape [0, 2 ^ 62, 2])),
    .add .quantizeRange "q" [⟨0, 0⟩] (QuantRange.toAttributes
      ⟨.scalar 0, .scalar 1, hollow [2 ^ 62, 1], hollow [2 ^ 62, 1], 2⟩),
    .add .constant "c" [] (Attributes.empty.insert "value" (.tensor (hollow [1, 2]))),
    .add .multiply "m" [⟨1, 0⟩, ⟨2, 0⟩] Attributes.empty]

/-- The graph that the session builds. -/
def outsized : Graph Rat := Call.performAll outsizedSession Graph.empty

/-- The fusion admits the multiplication, which the range could absorb, and the range passes the
check. Still it declines, as no array can have the shape of the edited bounds. -/
theorem outsized_declined :
    outsized.Reachable ∧ scaleFusion.admits outsized 3 = true ∧
      outsized.fusionSite 3 true = some ⟨3, 1, 2⟩ ∧
      outsized.constantValue 2 = some (hollow [1, 2]) ∧
      (∃ rangeNode operation range, outsized.node 1 = some rangeNode ∧
        outsized.node 3 = some operation ∧
        outsized.Absorbs ⟨3, 1, 2⟩ rangeNode operation (hollow [1, 2]) ∧
        QuantRange.ofNode rangeNode = .ok range ∧ range.Valid ∧ range.Comparable) ∧
      scaleFusion.apply 3 ⟨outsized, Journal.fresh⟩ =
        (.ok false, ⟨outsized, Journal.fresh⟩) := by
  have same : (outsized.node 1).bind (Node.outputType · 0) =
      (outsized.node 3).bind (Node.outputType · 0) := by decide +kernel
  have checked : ((outsized.node 1).map fun node =>
      (QuantRange.ofNode node).bind fun range => range.validate node.name) = some (.ok ()) := by
    decide +kernel
  obtain ⟨rangeNode, foundRange, validated⟩ := Option.map_eq_some_iff.mp checked
  obtain ⟨range, stated, passed⟩ := bind_eq_ok_iff.mp validated
  obtain ⟨valid, comparable⟩ := QuantRange.validate_eq_ok_iff.mp passed
  obtain ⟨operation, found, -⟩ : ∃ operation, outsized.node 3 = some operation ∧
      operation.kind = .multiply := Option.map_eq_some_iff.mp (by decide +kernel)
  have answered : (scaleFusion.apply 3 ⟨outsized, Journal.fresh⟩).1 = .ok false := by
    decide +kernel
  have admitted : scaleFusion.admits outsized 3 = true := by decide +kernel
  have reachable : outsized.Reachable := ⟨outsizedSession, rfl⟩
  have verdict := scaleFusion_reliable.verdict ⟨outsized, Journal.fresh⟩ 3 reachable.sound admitted
  refine ⟨reachable, admitted, by decide +kernel, by decide +kernel, ⟨rangeNode, operation, range,
    foundRange, found, ⟨by decide +kernel, ?_, ?_⟩, stated, valid, comparable⟩, ?_⟩
  · simpa [foundRange, found] using same
  · exact fun value among => absurd among List.not_mem_nil
  · have unchanged := verdict.unchanged (eq_of_answer answered) (by simp)
    rw [eq_of_answer answered, unchanged]

end Outsized

end RangeFold
