import RangeFold.Graph.Typing

/-!
# Typing does not read names

A typing rule uses the name of the node to label a failure and for nothing else. Two
nodes that differ in their names alone are typed alike, or both refused.

The comparison forgets failures. Every rule is a sequence of checks, so it is enough
that each of the checks they share answers alike under any name.
-/

namespace RangeFold

namespace Typing

variable {α β γ : Type} {ε : Type}

/-- The answer of a sequence is that of its second part on the answer of the first.
Rules are sequences, so they are compared part by part. -/
theorem toOption_bind (first : Except ε β) (next : β → Except ε γ) :
    (first >>= next).toOption = first.toOption.bind fun value => (next value).toOption := by
  cases first <;> rfl

/-- Forgetting the failure commutes with mapping the value. -/
theorem toOption_map (change : β → γ) (checked : Except ε β) :
    (checked.map change).toOption = checked.toOption.map change := by
  cases checked <;> rfl

/-- A value is kept when failures are forgotten. -/
@[simp] theorem toOption_ok (value : β) : (Except.ok value : Except ε β).toOption = some value := rfl

/-- A value is kept when failures are forgotten, in the form a computation ends
with. -/
@[simp] theorem toOption_pure (value : β) :
    (pure value : Except ε β).toOption = some value := rfl

/-- A failure is forgotten, whichever it was. -/
@[simp] theorem toOption_error (failure : ε) :
    (Except.error failure : Except ε β).toOption = none := rfl

/-- A thrown failure is forgotten. -/
@[simp] theorem toOption_throw (failure : ε) :
    (throw failure : Except ε β).toOption = none := rfl

/-- Nothing but the failure is lost: the value tells what the check answered. -/
theorem toOption_eq_some_iff {checked : Except ε β} {value : β} :
    checked.toOption = some value ↔ checked = .ok value := by
  cases checked <;> simp

namespace Site

variable (kind : OpKind) (name other : String) (inputs : List TensorType)
  (attributes : Attributes α)

/-- A fault leaves no trace of the name it was reported under. -/
@[simp] theorem fail_toOption (site : Site α) (fault : TypingFault) :
    (site.fail fault : Except Failure β).toOption = none := rfl

/-- Counting the inputs depends on their number alone. -/
theorem expectInputs_toOption (site : Site α) (expected : Nat) :
    (site.expectInputs expected).toOption =
      if site.inputs.length = expected then some () else none := by
  unfold expectInputs
  split <;> rfl

/-- The only input is found by the shape of the list. -/
theorem soleInput_toOption (site : Site α) : site.soleInput.toOption =
    match site.inputs with
    | [input] => some input
    | _ => none := by
  unfold soleInput
  split <;> simp_all

/-- Both inputs are found by the shape of the list. -/
theorem bothInputs_toOption (site : Site α) : site.bothInputs.toOption =
    match site.inputs with
    | [left, right] => some (left, right)
    | _ => none := by
  unfold bothInputs
  split <;> simp_all

/-- Comparing element types depends on the element types alone. -/
theorem expectSameElement_toOption (site : Site α) (left right : TensorType) :
    (site.expectSameElement left right).toOption =
      if left.element = right.element then some () else none := by
  unfold expectSameElement
  split <;> rfl

/-- A value that has to be there is the value itself, its absence being the failure. -/
theorem present_toOption (site : Site α) (label : String) (value : Option β) :
    (site.present label value).toOption = value := by
  cases value <;> rfl

end Site

/-- A required attribute is read as an optional one, once its complaint is
forgotten. -/
theorem required_toOption (attributes : Attributes α) (node label expected : String)
    (reading : Attributes α → String → Option β) :
    (attributes.required node label expected reading).toOption = reading attributes label := by
  unfold Attributes.required
  split <;> simp_all

section Rules

open Attributes

variable (kind : OpKind) (name other : String) (inputs : List TensorType)
  (attributes : Attributes α)

/-- A parameter is typed alike under any name. -/
theorem parameterType_toOption : (parameterType ⟨kind, name, inputs, attributes⟩).toOption =
    (parameterType ⟨kind, other, inputs, attributes⟩).toOption := by
  simp only [parameterType, toOption_bind, Site.expectInputs_toOption, Site.present_toOption,
    Site.statedElement]

/-- A constant is typed alike under any name. -/
theorem constantType_toOption : (constantType ⟨kind, name, inputs, attributes⟩).toOption =
    (constantType ⟨kind, other, inputs, attributes⟩).toOption := by
  simp only [constantType, toOption_bind, Site.expectInputs_toOption, requireTensor,
    required_toOption, Site.statedElement]

/-- A conversion is typed alike under any name. -/
theorem convertType_toOption : (convertType ⟨kind, name, inputs, attributes⟩).toOption =
    (convertType ⟨kind, other, inputs, attributes⟩).toOption := by
  simp only [convertType, toOption_bind, Site.soleInput_toOption, Site.present_toOption]

/-- A clamp is typed alike under any name. -/
theorem clampType_toOption [Arithmetic α] :
    (clampType ⟨kind, name, inputs, attributes⟩).toOption =
      (clampType ⟨kind, other, inputs, attributes⟩).toOption := by
  simp only [clampType, toOption_bind, Site.soleInput_toOption, requireFloat, required_toOption,
    apply_ite Except.toOption, toOption_throw]

/-- A reshape is typed alike under any name, the reading of its target included. -/
theorem reshapeType_toOption : (reshapeType ⟨kind, name, inputs, attributes⟩).toOption =
    (reshapeType ⟨kind, other, inputs, attributes⟩).toOption := by
  simp only [reshapeType, toOption_bind, Site.soleInput_toOption, requireInts, required_toOption]
  congr
  funext input
  congr
  funext target
  split <;> rfl

/-- A transpose is typed alike under any name. -/
theorem transposeType_toOption : (transposeType ⟨kind, name, inputs, attributes⟩).toOption =
    (transposeType ⟨kind, other, inputs, attributes⟩).toOption := by
  simp only [transposeType, toOption_bind, Site.soleInput_toOption, requireInts,
    required_toOption]
  congr
  funext input
  congr
  funext axes
  split <;> rfl

/-- A squeeze is typed alike under any name, both for given axes and without. -/
theorem squeezeType_toOption : (squeezeType ⟨kind, name, inputs, attributes⟩).toOption =
    (squeezeType ⟨kind, other, inputs, attributes⟩).toOption := by
  simp only [squeezeType, toOption_bind, Site.soleInput_toOption]
  congr
  funext input
  split
  · rfl
  · split
    · rfl
    · split <;> rfl

/-- An unsqueeze is typed alike under any name. -/
theorem unsqueezeType_toOption : (unsqueezeType ⟨kind, name, inputs, attributes⟩).toOption =
    (unsqueezeType ⟨kind, other, inputs, attributes⟩).toOption := by
  simp only [unsqueezeType, toOption_bind, Site.soleInput_toOption, requireInts,
    required_toOption]
  congr
  funext input
  congr
  funext axes
  split
  · rfl
  · split <;> rfl

/-- An element-wise node is typed alike under any name. -/
theorem elementwiseType_toOption : (elementwiseType ⟨kind, name, inputs, attributes⟩).toOption =
    (elementwiseType ⟨kind, other, inputs, attributes⟩).toOption := by
  simp only [elementwiseType, toOption_bind, Site.bothInputs_toOption,
    Site.expectSameElement_toOption]
  congr
  funext operands
  congr
  funext _
  split <;> rfl

/-- A matrix product is typed alike under any name. -/
theorem matMulType_toOption : (matMulType ⟨kind, name, inputs, attributes⟩).toOption =
    (matMulType ⟨kind, other, inputs, attributes⟩).toOption := by
  simp only [matMulType, toOption_bind, Site.bothInputs_toOption, Site.expectSameElement_toOption]
  congr
  funext operands
  congr
  funext _
  split
  · split
    · rfl
    · split <;> rfl
  · rfl

/-- The inputs of a concatenation are checked one after the other. By induction on
the inputs that are left. -/
theorem concatDim_toOption (first : TensorType) (axis total : Nat) (rest : List TensorType) :
    (concatDim ⟨kind, name, inputs, attributes⟩ first axis total rest).toOption =
      (concatDim ⟨kind, other, inputs, attributes⟩ first axis total rest).toOption := by
  induction rest generalizing total with
  | nil => rfl
  | cons input rest inductionHypothesis =>
    simp only [concatDim, toOption_bind, Site.expectSameElement_toOption]
    congr
    funext _
    split
    · exact inductionHypothesis _
    · rfl

/-- A concatenation is typed alike under any name. -/
theorem concatType_toOption : (concatType ⟨kind, name, inputs, attributes⟩).toOption =
    (concatType ⟨kind, other, inputs, attributes⟩).toOption := by
  cases inputs with
  | nil => rfl
  | cons first rest =>
    simp only [concatType, toOption_bind, requireInt, required_toOption]
    congr
    funext axis
    split
    · rfl
    · simp only [toOption_bind, toOption_pure]
      rw [concatDim_toOption]

/-- The bounds of a range are checked one after the other. By induction on the
bounds that are left. -/
theorem checkBounds_toOption (input : Shape) (bounds : List String) :
    (checkBounds ⟨kind, name, inputs, attributes⟩ input bounds).toOption =
      (checkBounds ⟨kind, other, inputs, attributes⟩ input bounds).toOption := by
  induction bounds with
  | nil => rfl
  | cons bound rest inductionHypothesis =>
    simp only [checkBounds, toOption_bind, requireTensor, required_toOption]
    congr
    funext value
    split
    · exact inductionHypothesis
    · rfl

/-- A quantization range is typed alike under any name, all its bounds being checked
first. -/
theorem rangeType_toOption : (rangeType ⟨kind, name, inputs, attributes⟩).toOption =
    (rangeType ⟨kind, other, inputs, attributes⟩).toOption := by
  simp only [rangeType, toOption_bind, Site.soleInput_toOption]
  congr
  funext input
  split
  · rfl
  · simp only [toOption_bind, requireInt, required_toOption, toOption_pure]
    rw [checkBounds_toOption]

/-- Every kind types its output alike under any name. A case for each rule puts the
comparisons together. -/
theorem outputType_toOption [Arithmetic α] :
    (outputType ⟨kind, name, inputs, attributes⟩).toOption =
      (outputType ⟨kind, other, inputs, attributes⟩).toOption := by
  cases kind with
  | parameter => exact parameterType_toOption _ name other inputs attributes
  | constant => exact constantType_toOption _ name other inputs attributes
  | result | identity | relu => simp only [outputType, Site.soleInput_toOption]
  | convert => exact convertType_toOption _ name other inputs attributes
  | clamp => exact clampType_toOption _ name other inputs attributes
  | reshape => exact reshapeType_toOption _ name other inputs attributes
  | transpose => exact transposeType_toOption _ name other inputs attributes
  | squeeze => exact squeezeType_toOption _ name other inputs attributes
  | unsqueeze => exact unsqueezeType_toOption _ name other inputs attributes
  | add | subtract | multiply => exact elementwiseType_toOption _ name other inputs attributes
  | matMul => exact matMulType_toOption _ name other inputs attributes
  | concat => exact concatType_toOption _ name other inputs attributes
  | quantizeRange => exact rangeType_toOption _ name other inputs attributes

end Rules

end Typing

variable {α : Type} [Arithmetic α] {kind : OpKind} {name : String} {inputs : List TensorType}
  {attributes : Attributes α} {types : List TensorType}

/-- A node types alike under any name. Renaming a node of a sound graph leaves its
types fresh. -/
theorem inferOutputs_rename (typed : inferOutputs kind name inputs attributes = .ok types)
    (other : String) : inferOutputs kind other inputs attributes = .ok types := by
  have same : (inferOutputs kind other inputs attributes).toOption =
      (inferOutputs kind name inputs attributes).toOption := by
    simp only [inferOutputs, Typing.toOption_map]
    rw [Typing.outputType_toOption kind other name]
  rw [← Typing.toOption_eq_some_iff, same, typed]
  rfl

/-- Every node has one output. Rules answer with a type and not with a list. -/
theorem inferOutputs_length (typed : inferOutputs kind name inputs attributes = .ok types) :
    types.length = 1 := by
  unfold inferOutputs at typed
  cases rule : Typing.outputType ⟨kind, name, inputs, attributes⟩ with
  | error failure => simp [rule, Except.map] at typed
  | ok type =>
    have single : [type] = types := by simpa [rule, Except.map] using typed
    rw [← single, List.length_singleton]

end RangeFold
