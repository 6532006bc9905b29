import RangeFold.Proofs.Meaning.Folding
import RangeFold.Proofs.Meaning.Elementwise
import RangeFold.Proofs.Pass.ConstantFolding
import RangeFold.Proofs.Session

/-!
# Fusion keeps values

A fusion that makes a change takes an operation with its constant and the range before it for one
range. In exact arithmetic the new range makes of every array what the two made of it: the constant
broadcasts to the type that the range has, since the operation keeps the type, and the new bounds
combine it, element by element, with what they were before.

The fusions are asked for the operations that they are made for. The scaling relies on that, as it
does not look at the kind of the operation: asked for a sum, it takes the summand for a factor.
-/

namespace RangeFold

variable {α : Type} [Arithmetic α]

namespace Graph

/-- What a node makes of an array that a producer hands to it, with constants for everything else
that it reads. -/
def valueWith (graph : Graph α) (node : Node α) (producer : NodeId) (value : Tensor α) :
    Option (Tensor α) :=
  (allValues (node.inputs.map (inputValue fun place =>
    if place = producer then some value else graph.constantValue place))).bind
      (node.denote elementwise)

variable {graph : Graph α} {id : NodeId} {site : FusionSite} {commutative : Bool}
  {operation : Node α}

/-- An elementwise operation of a sound graph that reads a range and a constant reads nothing
else. -/
theorem Sound.operands_of_fusionSite (sound : graph.Sound)
    (chosen : graph.fusionSite id commutative = some site)
    (found : graph.node id = some operation) {combiner : α → α → α}
    (combines : operation.kind.combination = some combiner) :
    operation.inputs = [⟨site.range, 0⟩, ⟨site.constant, 0⟩] ∨
      commutative = true ∧ operation.inputs = [⟨site.constant, 0⟩, ⟨site.range, 0⟩] := by
  obtain ⟨types, known, typed⟩ := sound.fresh id operation found
  obtain ⟨left, right, type, rfl, -, -⟩ := inferOutputs_elementwise combines typed
  have operands {first second : OpKind} {onLeft onRight : NodeId}
      (reads : graph.ReadsKinds id first second onLeft onRight) :
      operation.inputs = [⟨onLeft, 0⟩, ⟨onRight, 0⟩] := by
    obtain ⟨node, ⟨leftId, leftSlot⟩, ⟨rightId, rightSlot⟩, rest, again, inputs, rfl, rfl, -, -⟩ :=
      reads
    obtain rfl : operation = node := Option.some.inj (found.symm.trans again)
    obtain rfl : rest = [] := by
      have counted := congrArg List.length known
      simpa [inputs] using counted
    have first : (⟨leftId, leftSlot⟩ : OutputRef).slot = 0 :=
      sound.slot_eq_zero found (by simp [inputs])
    have second : (⟨rightId, rightSlot⟩ : OutputRef).slot = 0 :=
      sound.slot_eq_zero found (by simp [inputs])
    rw [inputs, show leftSlot = 0 from first, show rightSlot = 0 from second]
  obtain ⟨-, reads | ⟨commutes, reads⟩⟩ := fusionSite_eq_some_iff.mp chosen
  · exact .inl (operands reads)
  · exact .inr ⟨commutes, operands reads⟩

/-- If it keeps the type of the range, the constant stretches to that type. A wider
constant would have changed the type of the operation. -/
theorem Sound.joins_of_fusionSite (sound : graph.Sound)
    (chosen : graph.fusionSite id commutative = some site)
    (found : graph.node id = some operation) {combiner : α → α → α}
    (combines : operation.kind.combination = some combiner) {constant : Tensor α}
    (holds : graph.constantValue site.constant = some constant) {type : TensorType}
    (typed : graph.outputType ⟨site.range, 0⟩ = some type)
    (keeps : operation.outputType 0 = some type) :
    operation.inputs = [⟨site.range, 0⟩, ⟨site.constant, 0⟩] ∧
        type.shape.broadcast constant.shape = some type.shape ∨
      (commutative = true ∧ operation.inputs = [⟨site.constant, 0⟩, ⟨site.range, 0⟩]) ∧
        constant.shape.broadcast type.shape = some type.shape := by
  obtain ⟨-, fuses⟩ := fuses_of_fusionSite chosen
  obtain ⟨constantNode, foundConstant, kind⟩ := kindAt_eq_some_iff.mp fuses.constant
  obtain ⟨stored, constantType, holdsStored, typedConstant, shaped⟩ :=
    sound.constant_value foundConstant kind
  obtain rfl : constant = stored := Option.some.inj (holds.symm.trans holdsStored)
  obtain ⟨types, known, inferred⟩ := sound.fresh id operation found
  obtain ⟨left, right, result, rfl, sole, joins⟩ := inferOutputs_elementwise combines inferred
  obtain rfl : result = type := by simpa [Node.outputType_eq, sole] using keeps
  rw [shaped]
  rcases sound.operands_of_fusionSite chosen found combines with inputs | ⟨commutes, inputs⟩
  · obtain ⟨rfl, rfl⟩ : result = left ∧ constantType = right := by
      simpa [inputs, typed, typedConstant] using known
    exact .inl ⟨inputs, joins⟩
  · obtain ⟨rfl, rfl⟩ : constantType = left ∧ result = right := by
      simpa [inputs, typed, typedConstant] using known
    exact .inr ⟨⟨commutes, inputs⟩, joins⟩

/-- On a value of the type of its result, an absorbed operation does what its function does with
the operand. -/
theorem Sound.valueWith_eq (sound : graph.Sound)
    (chosen : graph.fusionSite id commutative = some site)
    (found : graph.node id = some operation) {constant operand : Tensor α}
    (holds : graph.constantValue site.constant = some constant) {function : α → α → α}
    (absorbed : Absorbed operation.kind commutative function constant operand)
    {type : TensorType} (typed : graph.outputType ⟨site.range, 0⟩ = some type)
    (keeps : operation.outputType 0 = some type) {value : Tensor α}
    (shaped : value.shape = type.shape) :
    graph.valueWith operation site.range value = some (Tensor.tabulate value.shape fun index =>
      function (value.spread index) (operand.spread index)) := by
  obtain ⟨combiner, combines, acts⟩ := absorbed.combines
  obtain ⟨-, fuses⟩ := fuses_of_fusionSite chosen
  have apart := fuses.apart
  have combined {left right : Tensor α} (joins : left.shape.broadcast right.shape = some value.shape)
      (reads : graph.valueWith operation site.range value =
        (left.shape.broadcast right.shape).map (left.merge combiner right))
      (same : ∀ index ∈ value.shape.indices,
        combiner (left.spread index) (right.spread index) =
          function (value.spread index) (operand.spread index)) :
      graph.valueWith operation site.range value = some (Tensor.tabulate value.shape fun index =>
        function (value.spread index) (operand.spread index)) := by
    rw [reads, joins, Option.map_some, Tensor.merge, Tensor.tabulate_congr same]
  rcases sound.joins_of_fusionSite chosen found combines holds typed keeps with
    ⟨inputs, joins⟩ | ⟨⟨commutes, inputs⟩, joins⟩
  · rw [← shaped] at joins
    refine combined joins ?_ fun index inside =>
      (acts _ index (Shape.fits_of_broadcast joins).2 inside _).1
    simp [valueWith, inputs, inputValue, apart, holds, allValues,
      Node.denote_elementwise combines]
  · rw [← shaped] at joins
    refine combined joins ?_ fun index inside =>
      (acts _ index (Shape.fits_of_broadcast joins).1 inside _).2 commutes
    simp [valueWith, inputs, inputValue, apart, holds, allValues,
      Node.denote_elementwise combines]

/-- Where a fusion has a range to offer, a range node with it makes of every array what the range
and the operation made of it together. -/
theorem Sound.values_of_offer (sound : graph.Sound)
    (chosen : graph.fusionSite id commutative = some site)
    (found : graph.node id = some operation) {constant operand : Tensor α}
    (holds : graph.constantValue site.constant = some constant) {function : α → α → α}
    (absorbed : Absorbed operation.kind commutative function constant operand) {name : String}
    {source : OutputRef} {edited : QuantRange α}
    (offered : fusedRange graph site (fun range => range.mapOutput function operand) =
      .ok (some (name, source, edited))) :
    operation.name = name ∧ graph.Feeds site.range id ∧ ∃ range input,
      graph.node site.range = some range ∧ range.kind = .quantizeRange ∧
      range.inputs = [source] ∧ graph.outputType source = some input ∧
      ∀ fused : Node α, QuantRange.ofNode fused = .ok edited →
        ∀ value : Tensor α, value.shape = input.shape → ∃ snapped result,
          range.denote elementwise [value] = some snapped ∧
          graph.valueWith operation site.range snapped = some result ∧
          fused.denote elementwise [value] = some result := by
  obtain ⟨rfl, fuses⟩ := fuses_of_fusionSite chosen
  obtain ⟨-, rangeNode, again, range, input, foundRange, foundAgain, named, types, reads, known,
    stated, valid, edits, low, high, -⟩ := fusedRange_eq_some_iff.mp offered
  obtain rfl : operation = again := Option.some.inj (found.symm.trans foundAgain)
  have kind := QuantRange.kind_of_ofNode stated
  obtain ⟨sole, type, _, inputs, -, knownType, passed, -, statedSame, fits⟩ :=
    sound.range_states foundRange kind
  obtain rfl : sole = source := by simpa [inputs] using reads
  obtain rfl : type = input := Option.some.inj (knownType.symm.trans known)
  obtain rfl := Except.ok.inj (stated.symm.trans statedSame)
  have levels := QuantRange.two_le_levels valid
  have typed : graph.outputType ⟨site.range, 0⟩ = some type := by
    simpa [Graph.outputType, foundRange] using passed
  -- Only fusions at operations that keep the type of the range are offered.
  have keeps : operation.outputType 0 = some type := types ▸ passed
  refine ⟨named, fuses.readsRange, rangeNode, type, foundRange, kind, inputs, known, ?_⟩
  intro fused read value shaped
  have fitsEdited := fits.of_inputs (QuantRange.inputs_mapOutput edits) low high
  have levelsEdited : 2 ≤ edited.levels := QuantRange.levels_mapOutput edits ▸ levels
  rw [← shaped] at fits low high fitsEdited
  have snaps := Node.denote_of_apply stated
    (QuantRange.apply_eq_ok_iff.mpr ⟨levels, fits, rfl⟩) elementwise
  have snapsEdited := Node.denote_of_apply read
    (QuantRange.apply_eq_ok_iff.mpr ⟨levelsEdited, fitsEdited, rfl⟩) elementwise
  refine ⟨range.snapped value, edited.snapped value, snaps, ?_, snapsEdited⟩
  rw [QuantRange.snapped_mapOutput absorbed.carries edits low high]
  exact sound.valueWith_eq chosen found holds absorbed typed keeps shaped

end Graph

/-- The fusions and the operations that they are made for. -/
inductive Pass.Handles : Pass α → OpKind → Prop where
  | product : Handles scaleFusion .multiply
  | sum : Handles shiftFusion .add
  | difference : Handles shiftFusion .subtract

/-- In a run a fusion is only asked for operations that it is made for. The matcher
asks for the kind, which the application itself does not. -/
theorem Pass.handles_of_admits {graph : Graph α} {id : NodeId} {operation : Node α} {pass : Pass α}
    (fusion : pass = scaleFusion ∨ pass = shiftFusion) (found : graph.node id = some operation)
    (admitted : pass.admits graph id = true) : pass.Handles operation.kind := by
  rcases fusion with rfl | rfl
  · obtain ⟨node, _, again, kind, -⟩ := multiplication_of_admits admitted
    obtain rfl : operation = node := Option.some.inj (found.symm.trans again)
    exact kind ▸ .product
  · obtain ⟨⟨site, signed⟩, chosen⟩ := Option.isSome_iff_exists.mp admitted
    obtain ⟨node, _, again, kind, -⟩ := shiftSite_eq_some chosen
    obtain rfl : operation = node := Option.some.inj (found.symm.trans again)
    rcases kind with kind | kind
    · exact kind ▸ .sum
    · exact kind ▸ .difference

/-- An edit of output bounds that an operation at a site asks for. -/
def Graph.Asks (graph : Graph α) (id : NodeId) (kind : OpKind) (site : FusionSite)
    (change : QuantRange α → Option (QuantRange α)) : Prop :=
  ∃ commutative constant operand function, graph.fusionSite id commutative = some site ∧
    graph.constantValue site.constant = some constant ∧
    Absorbed kind commutative function constant operand ∧
    change = fun range => range.mapOutput function operand

section Exact

variable {graph : Graph Rat} {id : NodeId} {operation : Node Rat}

/-- A multiplication asks for its constant as a factor. It may stand on either side. -/
theorem asks_of_scaleEdit (kind : operation.kind = .multiply) {site : FusionSite}
    {change : QuantRange Rat → Option (QuantRange Rat)}
    (offered : scaleEdit graph id = some (site, change)) :
    graph.Asks id operation.kind site change := by
  obtain ⟨chosen, here, rest⟩ := Option.bind_eq_some_iff.mp offered
  obtain ⟨scale, holds, rest⟩ := Option.bind_eq_some_iff.mp rest
  split at rest
  · obtain ⟨rfl, rfl⟩ := Prod.mk.inj (Option.some.inj rest)
    exact ⟨true, scale, scale, _, here, holds, kind ▸ absorbed_multiply, rfl⟩
  · cases rest

/-- An addition asks for its constant as a summand, and a subtraction for the
opposite of it. The opposite is taken element by element. -/
theorem asks_of_shiftEdit (found : graph.node id = some operation)
    (kind : operation.kind = .add ∨ operation.kind = .subtract) {site : FusionSite}
    {change : QuantRange Rat → Option (QuantRange Rat)}
    (offered : shiftEdit graph id = some (site, change)) :
    graph.Asks id operation.kind site change := by
  obtain ⟨⟨chosen, signed⟩, here, rest⟩ := Option.bind_eq_some_iff.mp offered
  obtain ⟨shift, holds, rest⟩ := Option.bind_eq_some_iff.mp rest
  split at rest
  · obtain ⟨rfl, rfl⟩ := Prod.mk.inj (Option.some.inj rest)
    rcases kind with kind | kind
    · obtain ⟨ordered, rfl⟩ : graph.fusionSite id true = some chosen ∧ _ = signed := by
        simpa [shiftSite, found, kind] using here
      exact ⟨true, shift, shift, _, ordered, holds, kind ▸ absorbed_add, rfl⟩
    · obtain ⟨ordered, rfl⟩ : graph.fusionSite id false = some chosen ∧ _ = signed := by
        simpa [shiftSite, found, kind] using here
      exact ⟨false, shift, shift.map Arithmetic.neg, _, ordered, holds,
        kind ▸ absorbed_subtract, rfl⟩
  · cases rest

/-- A fusion that handles an operation edits output bounds as the operation asks
for. Both fusions are covered by one statement in this way. -/
theorem Pass.Handles.asks {pass : Pass Rat} (handles : pass.Handles operation.kind)
    (found : graph.node id = some operation) :
    ∃ edit : Graph Rat → NodeId → Option (FusionEdit Rat), Proper edit ∧
      pass.apply id = Progress.onGraph (fuseBy edit id) ∧
      ∀ site change, edit graph id = some (site, change) →
        graph.Asks id operation.kind site change := by
  generalize same : operation.kind = kind at handles
  cases handles with
  | product =>
    exact ⟨scaleEdit, scaleEdit_proper, scaleFusion_apply id,
      fun _ _ => same ▸ asks_of_scaleEdit same⟩
  | sum =>
    exact ⟨shiftEdit, shiftEdit_proper, shiftFusion_apply id,
      fun _ _ => same ▸ asks_of_shiftEdit found (.inl same)⟩
  | difference =>
    exact ⟨shiftEdit, shiftEdit_proper, shiftFusion_apply id,
      fun _ _ => same ▸ asks_of_shiftEdit found (.inr same)⟩

/-- In exact arithmetic a fusion at an operation that it is made for keeps values. A range that
has the name of the operation comes to read what the range before the operation read, and it makes
of every array of that type what the operation made, with its constant, of what the range before
it made. -/
theorem fusion_keeps_values (reachable : graph.Reachable)
    (found : graph.node id = some operation) {pass : Pass Rat}
    (handles : pass.Handles operation.kind) {journal : Journal} {after : Progress Rat}
    (applied : pass.apply id ⟨graph, journal⟩ = (.ok true, after)) :
    ∃ place range source type new fused,
      graph.node place = some range ∧ range.kind = .quantizeRange ∧ range.inputs = [source] ∧
      graph.outputType source = some type ∧ graph.Feeds place id ∧
      after.graph.node new = some fused ∧ fused.kind = .quantizeRange ∧
      fused.name = operation.name ∧ fused.inputs = [source] ∧
      ∀ value : Tensor Rat, value.shape = type.shape → ∃ snapped result,
        range.denote elementwise [value] = some snapped ∧
        graph.valueWith operation place snapped = some result ∧
        fused.denote elementwise [value] = some result := by
  have sound := reachable.sound
  obtain ⟨edit, proper, applies, asks⟩ := handles.asks found
  have changed : fuseBy edit id graph = (.ok true, after.graph) := by
    rw [applies, Progress.onGraph_apply] at applied
    obtain ⟨answer, rfl⟩ := Prod.mk.inj applied
    exact Prod.ext answer rfl
  obtain ⟨site, change, name, source, edited, offered, offer, ranged⟩ :=
    proper.rangeAt sound changed
  obtain ⟨commutative, constant, operand, function, chosen, holds, absorbed, rfl⟩ :=
    asks site change offered
  obtain ⟨named, feeds, range, type, foundRange, kind, inputs, known, keeps⟩ :=
    sound.values_of_offer chosen found holds absorbed offer
  obtain ⟨fused, foundFused, renamed, kindFused, inputsFused, read⟩ := ranged
  exact ⟨site.range, range, source, type, graph.arena.length, fused, foundRange, kind, inputs,
    known, feeds, foundFused, kindFused, renamed.trans named.symm, inputsFused, keeps fused read⟩

end Exact

/-- An entry of two rows goes through a range, and a constant is added to each row. -/
def summedSession : List (Call Rat) :=
  [.add .parameter "x" [] (Attributes.empty.insert "shape" (.shape [2, 2])),
    .add .quantizeRange "q" [⟨0, 0⟩]
      (QuantRange.toAttributes ⟨.scalar 0, .scalar 1, .scalar 0, .scalar 1, 2⟩),
    .add .constant "c" [] (Attributes.empty.insert "value" (.tensor (Tensor.vector [2, 3]))),
    .add .add "sum" [⟨2, 0⟩, ⟨1, 0⟩] Attributes.empty]

/-- The graph that the session builds. -/
def summed : Graph Rat := Call.performAll summedSession Graph.empty

/-- An array for the entry. -/
def rows : Tensor Rat := ⟨[2, 2], [-1, 1, 1 / 4, 2], rfl⟩

/-- The shift is absorbed by the output bounds. The fused range yields what the
range and the addition yielded. -/
theorem summed_shifted :
    ((shiftFusion.apply 3 ⟨summed, Journal.fresh⟩).2.graph.node 4).bind
        (fun fused => fused.denote elementwise [rows]) = some ⟨[2, 2], [2, 4, 2, 4], rfl⟩ ∧
      ∃ operation place range source type new fused,
        summed.node 3 = some operation ∧ summed.node place = some range ∧
        range.inputs = [source] ∧ summed.outputType source = some type ∧
        (shiftFusion.apply 3 ⟨summed, Journal.fresh⟩).2.graph.node new = some fused ∧
        fused.name = operation.name ∧
        ∀ value : Tensor Rat, value.shape = type.shape → ∃ snapped result,
          range.denote elementwise [value] = some snapped ∧
          summed.valueWith operation place snapped = some result ∧
          fused.denote elementwise [value] = some result := by
  obtain ⟨operation, found, kind⟩ : ∃ operation, summed.node 3 = some operation ∧
      operation.kind = .add := Graph.kindAt_eq_some_iff.mp (by decide +kernel)
  have applied : shiftFusion.apply 3 ⟨summed, Journal.fresh⟩ =
      (.ok true, (shiftFusion.apply 3 ⟨summed, Journal.fresh⟩).2) :=
    Prod.ext (by decide +kernel) rfl
  obtain ⟨place, range, source, type, new, fused, foundRange, -, reads, known, -, foundFused, -,
    named, -, keeps⟩ := fusion_keeps_values ⟨summedSession, rfl⟩ found (kind ▸ .sum) applied
  exact ⟨by decide +kernel, operation, place, range, source, type, new, fused, found, foundRange,
    reads, known, foundFused, named, keeps⟩

/-- Asked for the sum, the other fusion takes the summand for a factor. The bounds
are then multiplied by what should have been added to them. -/
theorem summed_scaled :
    summed.Reachable ∧ summed.kindAt 3 = some .add ∧
      (scaleFusion.apply 3 ⟨summed, Journal.fresh⟩).1 = .ok true ∧
      (((summed.node 1).bind fun range => range.denote elementwise [rows]).bind fun snapped =>
        (summed.node 3).bind fun sum => summed.valueWith sum 1 snapped) =
          some ⟨[2, 2], [2, 4, 2, 4], rfl⟩ ∧
      ((scaleFusion.apply 3 ⟨summed, Journal.fresh⟩).2.graph.node 4).map
        (fun fused => (fused.kind, fused.name, fused.inputs)) =
          some (.quantizeRange, "sum", [⟨0, 0⟩]) ∧
      ((scaleFusion.apply 3 ⟨summed, Journal.fresh⟩).2.graph.node 4).bind
        (fun fused => fused.denote elementwise [rows]) = some ⟨[2, 2], [0, 3, 0, 3], rfl⟩ :=
  ⟨⟨summedSession, rfl⟩, by decide +kernel, by decide +kernel, by decide +kernel,
    by decide +kernel, by decide +kernel⟩

end RangeFold
