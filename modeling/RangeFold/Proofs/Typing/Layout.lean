import RangeFold.Graph.Typing
import RangeFold.Quantization.Layout
import RangeFold.Quantization.Node
import RangeFold.Proofs.Graph.Places
import RangeFold.Proofs.Steps
import RangeFold.Proofs.Tensor.Broadcast
import RangeFold.Proofs.Tensor.Permutation
import RangeFold.Proofs.Tensor.Target
import RangeFold.Proofs.Typing.Labels
import RangeFold.Proofs.Typing.Spreading

/-!
# What the rules promise

A layout operation that is typed on an input of some shape can be carried out on every value
of that shape, and the value it gives has the shape that the rule inferred. A quantization
range that is typed states all its parts, and its bounds fit the input, so it can be applied
to every value of the input's shape. Typing thus leaves one thing to go wrong later: the rules
do not bound a shape, and an operation that lays elements out anew is refused a shape that no
array can have.

A reshape, a squeeze and an unsqueeze keep the number of elements, which is all that a change
of shape asks for. For the last two this is read off what they make of the dimensions.
-/

namespace RangeFold

variable {α : Type}

namespace Shape

/-- Dimensions of 1 do not count. They are factors of 1. -/
theorem volume_filter_ne_one (shape : Shape) : volume (shape.filter (· ≠ 1)) = volume shape := by
  induction shape with
  | nil => rfl
  | cons dim rest inductionHypothesis =>
    by_cases one : dim = 1 <;> simp_all

end Shape

section Readings

variable {name : String} {attributes : Attributes α}

/-- A required array is answered exactly if it is there. -/
theorem Attributes.requireTensor_eq_ok_iff {label : String} {value : Tensor α} :
    attributes.requireTensor name label = .ok value ↔ attributes.tensor label = some value := by
  rw [← Typing.toOption_eq_some_iff, requireTensor, Typing.required_toOption]

/-- A required integer is answered exactly if it is there. -/
theorem Attributes.requireInt_eq_ok_iff {label : String} {value : Int} :
    attributes.requireInt name label = .ok value ↔ attributes.int label = some value := by
  rw [← Typing.toOption_eq_some_iff, requireInt, Typing.required_toOption]

/-- A required list of integers is answered exactly if it is there. -/
theorem Attributes.requireInts_eq_ok_iff {label : String} {values : List Int} :
    attributes.requireInts name label = .ok values ↔ attributes.ints label = some values := by
  rw [← Typing.toOption_eq_some_iff, requireInts, Typing.required_toOption]

end Readings

/-- A resolved target has as many elements as the input. The resolution ends with
this check, whether or not a dimension was inferred. -/
theorem resolveReshape_volume {input output : Shape} {target : List Int}
    (resolved : resolveReshape input target = .ok output) :
    Shape.volume output = Shape.volume input := by
  obtain ⟨-, -, -, -, same⟩ := resolveReshape_eq_ok_iff.mp resolved
  exact same

namespace Typing

/-- An operation with one input sees that input. The rules about layouts all start
here. -/
theorem Site.soleInput_singleton (kind : OpKind) (name : String) (input : TensorType)
    (attributes : Attributes α) :
    (⟨kind, name, [input], attributes⟩ : Site α).soleInput = .ok input := rfl

variable {name : String} {input output : TensorType} {attributes : Attributes α}

/-- Reshaping keeps the number of elements, which is what its rule checks last. -/
theorem reshapeType_volume
    (typed : reshapeType ⟨.reshape, name, [input], attributes⟩ = .ok output) :
    Shape.volume output.shape = Shape.volume input.shape := by
  unfold reshapeType at typed
  rw [Site.soleInput_singleton, Attempt.ok_bind] at typed
  obtain ⟨target, -, resolving⟩ := Attempt.bind_eq_ok_iff.mp typed
  split at resolving
  · rename_i shape resolved
    obtain rfl := Except.ok.inj resolving
    exact resolveReshape_volume resolved
  · cases resolving

/-- A squeeze leaves out the dimensions of 1 at the stated axes, or all of them. The
positions have to be different and of dimension 1. -/
theorem squeezeType_eq_ok_iff : squeezeType ⟨.squeeze, name, [input], attributes⟩ = .ok output ↔
    attributes.ints "axes" = none ∧ output = ⟨input.element, input.shape.filter (· ≠ 1)⟩ ∨
      ∃ axes positions, attributes.ints "axes" = some axes ∧
        axisPositions axes input.rank = some positions ∧
        (∀ position ∈ positions, input.shape.getD position 1 = 1) ∧
        output = ⟨input.element, dimsWithout input.shape positions⟩ := by
  unfold squeezeType
  rw [Site.soleInput_singleton, Attempt.ok_bind]
  cases stated : attributes.ints "axes" with
  | none => simp [pure, Except.pure, eq_comm]
  | some axes =>
    cases placed : axisPositions axes input.rank with
    | none => simp [placed, Site.fail]
    | some positions =>
      simp only [placed, reduceCtorEq, false_and, false_or, Option.some.injEq, exists_eq_left',
        exists_and_left]
      split
      · rename_i position found
        have listed := List.mem_of_find?_eq_some found
        have wide : input.shape.getD position 1 ≠ 1 := by simpa using List.find?_some found
        refine iff_of_false (by simp [Site.fail]) ?_
        rintro ⟨ones, -⟩
        exact wide (ones position listed)
      · rename_i found
        have ones : ∀ position ∈ positions, input.shape.getD position 1 = 1 := by simpa using found
        simpa [pure, Except.pure, eq_comm] using fun _ => ones

/-- An unsqueeze puts dimensions of 1 at the positions of its axes, which must be
different. They count in the rank of the result. -/
theorem unsqueezeType_eq_ok_iff :
    unsqueezeType ⟨.unsqueeze, name, [input], attributes⟩ = .ok output ↔
      ∃ axes positions, attributes.ints "axes" = some axes ∧
        axisPositions axes (input.rank + axes.length) = some positions ∧ positions.Nodup ∧
        output = ⟨input.element,
          spreadDims positions 0 (input.rank + axes.length) input.shape⟩ := by
  unfold unsqueezeType
  rw [Site.soleInput_singleton, Attempt.ok_bind, Attempt.bind_eq_ok_iff]
  simp only [Attributes.requireInts_eq_ok_iff]
  refine exists_congr fun axes => ?_
  cases placed : axisPositions axes (input.rank + axes.length) with
  | none => simp [Site.fail]
  | some positions =>
    simp only [Site.fail, Attempt.refusal_eq_ok_iff, hasRepeat_sorted_iff, spreadDims_sorted, pure,
      Except.pure]
    simp [eq_comm]

/-- Squeezing keeps the number of elements, since only dimensions of 1 go. -/
theorem squeezeType_volume
    (typed : squeezeType ⟨.squeeze, name, [input], attributes⟩ = .ok output) :
    Shape.volume output.shape = Shape.volume input.shape := by
  obtain ⟨-, rfl⟩ | ⟨axes, positions, -, -, ones, rfl⟩ := squeezeType_eq_ok_iff.mp typed
  · exact Shape.volume_filter_ne_one input.shape
  · exact volume_dimsWithout ones

/-- Unsqueezing keeps the number of elements, since only dimensions of 1 come. -/
theorem unsqueezeType_volume
    (typed : unsqueezeType ⟨.unsqueeze, name, [input], attributes⟩ = .ok output) :
    Shape.volume output.shape = Shape.volume input.shape := by
  obtain ⟨axes, positions, -, placed, distinct, rfl⟩ := unsqueezeType_eq_ok_iff.mp typed
  exact volume_spreadDims distinct (fun _ => lt_of_mem_axisPositions placed)
    (congrArg _ (length_of_axisPositions placed))

/-- The axes of a transpose permute those of the input. The element type is passed
on. -/
theorem transposeType_eq_ok
    (typed : transposeType ⟨.transpose, name, [input], attributes⟩ = .ok output) :
    ∃ axes positions, attributes.requireInts name "perm" = .ok axes ∧
      permutationOf axes input.rank = .ok positions ∧
      output.shape = positions.map fun axis => input.shape.getD axis 0 := by
  unfold transposeType at typed
  rw [Site.soleInput_singleton, Attempt.ok_bind] at typed
  obtain ⟨axes, stated, placing⟩ := Attempt.bind_eq_ok_iff.mp typed
  split at placing
  · rename_i positions permuted
    obtain rfl := Except.ok.inj placing
    exact ⟨axes, positions, stated, permuted, rfl⟩
  · cases placing

end Typing

namespace Tensor

/-- Under another shape the elements are the same, in the same order. The shape is one that an
array can have. -/
theorem reshape_eq_ok_iff {tensor next : Tensor α} {shape : Shape} :
    tensor.reshape shape = .ok next ↔
      shape.Storable ∧ next.shape = shape ∧ next.data = tensor.data := by
  obtain ⟨own, data, sized⟩ := next
  unfold reshape ofData
  split
  · split
    · rename_i stored
      simp [stored, eq_comm]
    · rename_i large
      simp [large]
  · rename_i other
    simp only [reduceCtorEq, false_iff]
    rintro ⟨-, rfl, rfl⟩
    exact other sized

/-- A tensor takes every shape with as many elements that an array can have. The
elements stay in their order. -/
theorem reshape_eq_ok (tensor : Tensor α) {shape : Shape}
    (sized : Shape.volume shape = Shape.volume tensor.shape) (stored : shape.Storable) :
    ∃ next, tensor.reshape shape = .ok next ∧ next.shape = shape :=
  ⟨⟨shape, tensor.data, tensor.size_eq.trans sized.symm⟩,
    reshape_eq_ok_iff.mpr ⟨stored, rfl, rfl⟩, rfl⟩

/-- Any other shape with as many elements is refused for its extent, and for nothing
else. Only shapes with a dimension of 0 can come to this, since elements are in
memory already. -/
theorem reshape_tooLarge (tensor : Tensor α) {shape : Shape}
    (sized : Shape.volume shape = Shape.volume tensor.shape) (large : ¬ shape.Storable) :
    tensor.reshape shape = .error .tooLarge := by
  rw [reshape, ofData, dif_pos (tensor.size_eq.trans sized.symm), if_neg large]

end Tensor

namespace OpKind

/-- Operations that lay out the elements of their input in a shape of their own. -/
def reshapes : OpKind → Bool
  | .reshape | .squeeze | .unsqueeze => true
  | _ => false

/-- An operation can yield arrays of the shape. Only one that lays elements out anew asks whether
an array can have it. -/
def CanYield (kind : OpKind) (shape : Shape) : Prop := kind.reshapes = true → shape.Storable

end OpKind

section Rules

variable [Arithmetic α] {kind : OpKind} {name : String} {inputs types : List TensorType}
  {attributes : Attributes α}

/-- Inference answers one type, the one that the rule for the kind gives. -/
theorem inferOutputs_eq_ok_iff : inferOutputs kind name inputs attributes = .ok types ↔
    ∃ type, Typing.outputType ⟨kind, name, inputs, attributes⟩ = .ok type ∧ types = [type] := by
  rw [inferOutputs, Attempt.map_eq_ok_iff]

/-- A typed layout operation can be carried out on every value of its input's shape, if it can
yield an array of the inferred shape. If it cannot, that is what it fails for. -/
theorem Node.evaluate_of_typed {node : Node α} (layout : node.kind.isLayout = true)
    {input : TensorType}
    (typed : inferOutputs node.kind node.name [input] node.attributes = .ok node.outputTypes)
    {value : Tensor α} (shaped : value.shape = input.shape) :
    ∃ type, node.outputTypes = [type] ∧
      (node.kind.CanYield type.shape →
        ∃ next, node.evaluate value = .ok next ∧ next.shape = type.shape) ∧
      (¬ node.kind.CanYield type.shape →
        node.evaluate value = .error (.internal (.layout .tooLarge))) := by
  obtain ⟨type, ruled, sole⟩ := inferOutputs_eq_ok_iff.mp typed
  have stored : node.outputType 0 = some type := by rw [Node.outputType_eq, sole]; rfl
  have relaid (sized : Shape.volume type.shape = Shape.volume input.shape) :
      (type.shape.Storable → ∃ next, layoutResult (value.reshape type.shape) = .ok next ∧
          next.shape = type.shape) ∧
        (¬ type.shape.Storable →
          layoutResult (value.reshape type.shape) = .error (.internal (.layout .tooLarge))) := by
    refine ⟨fun stored => ?_, fun large => ?_⟩
    · obtain ⟨next, reshaped, same⟩ := value.reshape_eq_ok (shaped ▸ sized) stored
      exact ⟨next, by rw [reshaped]; rfl, same⟩
    · rw [value.reshape_tooLarge (shaped ▸ sized) large]
      rfl
  refine ⟨type, sole, ?_⟩
  unfold Node.evaluate
  rw [stored]
  cases kind : node.kind <;> simp only [kind, OpKind.isLayout, Bool.false_eq_true] at layout
    <;> rw [kind] at ruled
    <;> simp only [OpKind.CanYield, OpKind.reshapes, Bool.false_eq_true, false_implies,
      true_implies, not_true_eq_false, and_true]
  case identity =>
    obtain rfl : input = type := Except.ok.inj ruled
    exact ⟨value, rfl, shaped⟩
  case reshape => exact relaid (Typing.reshapeType_volume ruled)
  case squeeze => exact relaid (Typing.squeezeType_volume ruled)
  case unsqueeze => exact relaid (Typing.unsqueezeType_volume ruled)
  case transpose =>
    obtain ⟨axes, positions, stated, permuted, same⟩ := Typing.transposeType_eq_ok ruled
    have rank : value.rank = input.rank := congrArg List.length shaped
    obtain ⟨-, permutes⟩ := permutationOf_eq_ok_iff.mp permuted
    obtain ⟨next, carried, shape⟩ : ∃ next, value.permute positions = .ok next ∧
        next.shape = type.shape :=
      ⟨_, Tensor.permute_eq_ok_iff.mpr ⟨rank ▸ permutes, rfl⟩, by rw [same, ← shaped]; rfl⟩
    refine ⟨next, ?_, shape⟩
    simp only [stated, Attempt.ok_bind, rank, permuted, carried]
    rfl

/-- A typed layout operation that can yield arrays of its type gives no larger one than arrays can
be, unless its input is larger already. The kinds that do not ask for it keep the dimensions or move
them. -/
theorem Typing.storable_of_typed {node : Node α} (layout : node.kind.isLayout = true)
    {input type : TensorType}
    (typed : inferOutputs node.kind node.name [input] node.attributes = .ok [type])
    (yields : node.kind.CanYield type.shape) (stored : input.shape.Storable) :
    type.shape.Storable := by
  obtain ⟨own, ruled, sole⟩ := inferOutputs_eq_ok_iff.mp typed
  obtain rfl : type = own := List.singleton_inj.mp sole
  cases kind : node.kind <;> simp only [kind, OpKind.isLayout, Bool.false_eq_true] at layout
    <;> rw [kind] at ruled yields
  case identity =>
    obtain rfl : input = type := Except.ok.inj ruled
    exact stored
  case transpose =>
    obtain ⟨axes, positions, -, permuted, same⟩ := Typing.transposeType_eq_ok ruled
    obtain ⟨-, permutes⟩ := permutationOf_eq_ok_iff.mp permuted
    rw [same]
    exact stored.of_perm (Tensor.permutedShape_perm permutes)
  all_goals exact yields rfl

end Rules

section Ranges

variable {name : String} {attributes : Attributes α} {range : QuantRange α}

/-- Attributes state a range if they state each of its parts. Other attributes are
not looked at. -/
theorem QuantRange.ofAttributes_eq_ok_iff : ofAttributes name attributes = .ok range ↔
    (∀ label bound, (label, bound) ∈ range.bounds → attributes.tensor label = some bound) ∧
      attributes.int "levels" = some range.levels := by
  obtain ⟨inputLow, inputHigh, outputLow, outputHigh, levels⟩ := range
  simp only [ofAttributes, Attempt.bind_eq_ok_iff, Attributes.requireTensor_eq_ok_iff,
    Attributes.requireInt_eq_ok_iff, pure, Except.pure, Except.ok.injEq, mk.injEq, bounds,
    List.mem_cons, Prod.mk.injEq, List.not_mem_nil, or_false]
  grind

namespace QuantRange

/-- What holds of every bound holds of the four. Statements about a range are made
in the first form and used in the second. -/
theorem forall_bounds_iff {holds : Tensor α → Prop} :
    (∀ label bound, (label, bound) ∈ range.bounds → holds bound) ↔
      holds range.inputLow ∧ holds range.inputHigh ∧ holds range.outputLow ∧ holds range.outputHigh := by
  constructor
  · intro every
    exact ⟨every "input_low" _ (by simp [bounds]), every "input_high" _ (by simp [bounds]),
      every "output_low" _ (by simp [bounds]), every "output_high" _ (by simp [bounds])⟩
  · rintro ⟨inputLow, inputHigh, outputLow, outputHigh⟩ label bound listed
    simp only [bounds, List.mem_cons, Prod.mk.injEq, List.not_mem_nil, or_false] at listed
    obtain ⟨-, rfl⟩ | ⟨-, rfl⟩ | ⟨-, rfl⟩ | ⟨-, rfl⟩ := listed <;> assumption

/-- Every bound broadcasts to the shape. -/
def Fits (range : QuantRange α) (shape : Shape) : Prop :=
  ∀ label bound, (label, bound) ∈ range.bounds → bound.shape.fits shape = true

/-- A range fits a shape when its four bounds do. -/
theorem fits_iff {shape : Shape} : range.Fits shape ↔
    range.inputLow.shape.fits shape = true ∧ range.inputHigh.shape.fits shape = true ∧
      range.outputLow.shape.fits shape = true ∧ range.outputHigh.shape.fits shape = true :=
  forall_bounds_iff

/-- The check of the levels passes from two levels on. -/
theorem checkLevels_eq_ok_iff {label : String} :
    range.checkLevels label = .ok () ↔ 2 ≤ range.levels := by
  unfold checkLevels
  split
  · rename_i few
    exact iff_of_false (by simp) (by omega)
  · rename_i enough
    exact iff_of_true rfl (by omega)

/-- The check of one bound passes if its shape fits. -/
theorem checkBound_eq_ok_iff {node label : String} {bound : Tensor α} {shape : Shape} :
    checkBound node label bound shape = .ok () ↔ bound.shape.fits shape = true := by
  unfold checkBound
  split <;> simp_all

variable [Arithmetic α]

/-- The tensor that a range makes of a tensor that its bounds fit. -/
def snapped (range : QuantRange α) (data : Tensor α) : Tensor α :=
  Tensor.tabulate data.shape fun index =>
    quantizeValue (data.get index) (range.inputLow.spread index) (range.inputHigh.spread index)
      (range.outputLow.spread index) (range.outputHigh.spread index) range.levels

/-- A range that is valid has at least two levels. This much does not depend on the
bounds. -/
theorem two_le_levels {label : String} (valid : range.validate label = .ok ()) :
    2 ≤ range.levels := by
  obtain ⟨_, counted, -⟩ := Attempt.bind_eq_ok_iff.mp valid
  exact checkLevels_eq_ok_iff.mp counted

/-- A range snaps data exactly if it has levels enough and its bounds fit the data.
Whether bounds are in order has been checked elsewhere. -/
theorem apply_eq_ok_iff {node : String} {data next : Tensor α} :
    range.apply node data = .ok next ↔
      2 ≤ range.levels ∧ range.Fits data.shape ∧ next = range.snapped data := by
  rw [fits_iff, apply, Attempt.check_bind_eq_ok_iff, Attempt.check_bind_eq_ok_iff,
    Attempt.check_bind_eq_ok_iff, Attempt.check_bind_eq_ok_iff, Attempt.check_bind_eq_ok_iff,
    checkLevels_eq_ok_iff, checkBound_eq_ok_iff, checkBound_eq_ok_iff, checkBound_eq_ok_iff,
    checkBound_eq_ok_iff]
  constructor
  · rintro ⟨levels, inputLow, inputHigh, outputLow, outputHigh, snaps⟩
    exact ⟨levels, ⟨inputLow, inputHigh, outputLow, outputHigh⟩, (Except.ok.inj snaps).symm⟩
  · rintro ⟨levels, ⟨inputLow, inputHigh, outputLow, outputHigh⟩, rfl⟩
    exact ⟨levels, inputLow, inputHigh, outputLow, outputHigh, rfl⟩

end QuantRange

namespace Typing

/-- The check of several bounds passes if every one of them is there and fits, in
whatever order they are looked at. -/
theorem checkBounds_eq_ok_iff {site : Site α} {shape : Shape} {labels : List String} :
    checkBounds site shape labels = .ok () ↔ ∀ label ∈ labels, ∃ bound,
      site.attributes.tensor label = some bound ∧ bound.shape.fits shape = true := by
  induction labels with
  | nil => simp [checkBounds]
  | cons label rest inductionHypothesis =>
    have first (bound : Tensor α) : (if bound.shape.fits shape = true then
        checkBounds site shape rest else site.fail (.boundBeyondInput label bound.shape shape)) =
          .ok () ↔ bound.shape.fits shape = true ∧ checkBounds site shape rest = .ok () := by
      split
      · rename_i fits
        simp [fits]
      · rename_i beyond
        simp [beyond, Site.fail]
    simp only [checkBounds, Attempt.bind_eq_ok_iff, Attributes.requireTensor_eq_ok_iff, first,
      inductionHypothesis, List.mem_cons, forall_eq_or_imp, exists_and_right, ← and_assoc]

variable [Arithmetic α] {kind : OpKind} {input : TensorType} {types : List TensorType}

/-- A range is typed on a floating input that its bounds fit, and keeps the type.
How many levels it has is not a
matter of typing. -/
theorem inferOutputs_range_iff : inferOutputs .quantizeRange name [input] attributes = .ok types ↔
    types = [input] ∧ input.element.isFloat = true ∧
      ∃ range, QuantRange.ofAttributes name attributes = .ok range ∧ range.Fits input.shape := by
  have ruled (type : TensorType) :
      Typing.outputType (⟨.quantizeRange, name, [input], attributes⟩ : Site α) = .ok type ↔
        type = input ∧ input.element.isFloat = true ∧
          ∃ range, QuantRange.ofAttributes name attributes = .ok range ∧
            range.Fits input.shape := by
    show rangeType ⟨.quantizeRange, name, [input], attributes⟩ = .ok type ↔ _
    unfold rangeType
    rw [Site.soleInput_singleton, Attempt.ok_bind]
    cases floating : input.element.isFloat with
    | false => simp [Site.fail]
    | true =>
      simp only [Bool.not_true, Bool.false_eq_true, if_false, Attempt.bind_eq_ok_iff,
        Attributes.requireInt_eq_ok_iff, pure, Except.pure, Except.ok.injEq,
        QuantRange.ofAttributes_eq_ok_iff, true_and]
      constructor
      · rintro ⟨_, checked, levels, stated, rfl⟩
        have bounds := checkBounds_eq_ok_iff.mp checked
        simp only [QuantRange.boundNames, List.mem_cons, List.not_mem_nil, or_false,
          forall_eq_or_imp, forall_eq] at bounds
        obtain ⟨⟨inputLow, lowStated, lowFits⟩, ⟨inputHigh, highStated, highFits⟩,
          ⟨outputLow, outLowStated, outLowFits⟩, outputHigh, outHighStated, outHighFits⟩ := bounds
        refine ⟨rfl, ⟨inputLow, inputHigh, outputLow, outputHigh, levels⟩, ⟨?_, stated⟩, ?_⟩
        · simp only [QuantRange.bounds, List.mem_cons, Prod.mk.injEq, List.not_mem_nil, or_false]
          rintro label bound (⟨rfl, rfl⟩ | ⟨rfl, rfl⟩ | ⟨rfl, rfl⟩ | ⟨rfl, rfl⟩) <;> assumption
        · exact QuantRange.fits_iff.mpr ⟨lowFits, highFits, outLowFits, outHighFits⟩
      · rintro ⟨rfl, range, ⟨states, stated⟩, fits⟩
        refine ⟨(), checkBounds_eq_ok_iff.mpr fun label listed => ?_, range.levels, stated, rfl⟩
        have named : label ∈ range.bounds.map Prod.fst := listed
        obtain ⟨⟨_, bound⟩, member, rfl⟩ := List.mem_map.mp named
        exact ⟨bound, states _ bound member, fits _ bound member⟩
  rw [inferOutputs_eq_ok_iff]
  simp only [ruled]
  grind

end Typing

end Ranges

end RangeFold
