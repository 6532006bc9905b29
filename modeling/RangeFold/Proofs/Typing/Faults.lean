import RangeFold.Proofs.Steps
import RangeFold.Graph.Retyping

/-!
# What typing complains about

A typing rule that refuses a node names that node, and finds fault with its inputs or its
attributes. It never speaks of the edges of the graph, because it does not see them: the
faults that an edit reports about edges are the edit's own.

Every rule is a sequence of checks, so it is enough to say of each check with what it can
fail.
-/

namespace RangeFold

variable {α β γ : Type}

/-- The check fails with admitted failures only. -/
def FailsOnly (admitted : Failure → Prop) (check : Except Failure β) : Prop :=
  ∀ failure, check = .error failure → admitted failure

namespace FailsOnly

variable {admitted : Failure → Prop}

/-- A check that passes fails with nothing. -/
theorem ok (value : β) : FailsOnly admitted (.ok value) := fun _ failed => by cases failed

/-- A check that fails outright fails as admitted if its failure is. -/
theorem error {failure : Failure} (known : admitted failure) :
    FailsOnly admitted (.error failure : Except Failure β) := fun _ failed => by
  cases failed
  exact known

/-- A sequence of checks fails only as its parts do. -/
theorem bind {check : Except Failure β} {next : β → Except Failure γ}
    (first : FailsOnly admitted check) (rest : ∀ value, FailsOnly admitted (next value)) :
    FailsOnly admitted (check >>= next) := by
  cases check with
  | error failure => exact error (first failure rfl)
  | ok value => exact rest value

/-- Changing the value of a check does not change its failures. -/
theorem map {check : Except Failure β} (first : FailsOnly admitted check) (change : β → γ) :
    FailsOnly admitted (check.map change) := by
  cases check with
  | error failure => exact error (first failure rfl)
  | ok value => exact ok (change value)

/-- A check made of every item of a list fails only as the single checks do, by
induction on the list. -/
theorem mapM {check : β → Except Failure γ} (each : ∀ item, FailsOnly admitted (check item))
    (items : List β) : FailsOnly admitted (items.mapM check) := by
  induction items with
  | nil => exact ok []
  | cons item rest inductionHypothesis =>
    rw [List.mapM_cons]
    exact bind (each item) fun value => bind inductionHypothesis fun values => ok (value :: values)

end FailsOnly

/-- The fault is that an edge would close a cycle. -/
def TypingFault.closesCycle : TypingFault → Bool
  | .inputCycle .. | .replacementCycle .. => true
  | _ => false

/-- The failure is about something else than a cycle. -/
def Failure.BlamesNoCycle : Failure → Prop
  | .typing _ fault => fault.closesCycle = false
  | _ => True

/-- A failure of the rule of a node: it names the node and speaks of its inputs or of one
of its attributes. -/
inductive Failure.OfRule (name : String) : Failure → Prop where
  | ofInputs {fault : TypingFault} (acyclic : fault.closesCycle = false) :
    OfRule name (.typing name fault)
  | ofAttribute (key : String) (fault : AttributeFault) :
    OfRule name (.invalidAttribute name key fault)

namespace Typing

namespace Site

variable (site : Site α)

/-- A rule that finds fault names its node. Faults about cycles are excluded because
no rule sees edges. -/
theorem fail_ofRule {fault : TypingFault} (acyclic : fault.closesCycle = false) :
    FailsOnly (Failure.OfRule site.name) (site.fail fault : Except Failure β) :=
  FailsOnly.error (.ofInputs acyclic)

/-- Counting the inputs fails only as a rule of the node. -/
theorem expectInputs_ofRule (expected : Nat) :
    FailsOnly (Failure.OfRule site.name) (site.expectInputs expected) := by
  unfold expectInputs
  split
  · exact .ok ()
  · exact site.fail_ofRule rfl

/-- Comparing element types fails only as a rule of the node. -/
theorem expectSameElement_ofRule (left right : TensorType) :
    FailsOnly (Failure.OfRule site.name) (site.expectSameElement left right) := by
  unfold expectSameElement
  split
  · exact .ok ()
  · exact site.fail_ofRule rfl

/-- Asking for the only input fails only as a rule of the node. -/
theorem soleInput_ofRule : FailsOnly (Failure.OfRule site.name) site.soleInput := by
  unfold soleInput
  split
  · exact .ok _
  · exact site.fail_ofRule rfl

/-- Asking for both inputs fails only as a rule of the node. -/
theorem bothInputs_ofRule : FailsOnly (Failure.OfRule site.name) site.bothInputs := by
  unfold bothInputs
  split
  · exact .ok _
  · exact site.fail_ofRule rfl

/-- Asking for an optional value to be there fails only as a rule of the node. -/
theorem present_ofRule (key : String) (value : Option β) :
    FailsOnly (Failure.OfRule site.name) (site.present key value) := by
  cases value with
  | some value => exact .ok value
  | none => exact .error (.ofAttribute key .missing)

end Site

/-- Asking for an attribute fails as missing or as being of another kind, in the
name of the node either way. -/
theorem required_ofRule {attributes : Attributes α} {name key expected : String}
    {reading : Attributes α → String → Option β} :
    FailsOnly (Failure.OfRule name) (attributes.required name key expected reading) := by
  unfold Attributes.required
  split
  · exact .ok _
  · exact .error (.ofAttribute key _)

section Rules

variable (site : Site α)

/-- The rule for parameters blames the parameter. -/
theorem parameterType_ofRule : FailsOnly (Failure.OfRule site.name) (parameterType site) :=
  .bind (site.expectInputs_ofRule 0) fun _ => .bind (site.present_ofRule _ _) fun _ => .ok _

/-- The rule for constants blames the constant. -/
theorem constantType_ofRule : FailsOnly (Failure.OfRule site.name) (constantType site) :=
  .bind (site.expectInputs_ofRule 0) fun _ => .bind required_ofRule fun _ => .ok _

/-- The rule for conversions blames the conversion. -/
theorem convertType_ofRule : FailsOnly (Failure.OfRule site.name) (convertType site) :=
  .bind site.soleInput_ofRule fun _ => .bind (site.present_ofRule _ _) fun _ => .ok _

/-- The rule for clamping blames the clamp, for its bounds among other things. -/
theorem clampType_ofRule [Arithmetic α] :
    FailsOnly (Failure.OfRule site.name) (clampType site) := by
  refine .bind site.soleInput_ofRule fun input => .bind required_ofRule fun least =>
    .bind required_ofRule fun greatest => ?_
  split
  · exact .error (.ofAttribute _ _)
  · exact .ok input

/-- The rule for reshaping blames the reshape, also for what reading its target
finds. -/
theorem reshapeType_ofRule : FailsOnly (Failure.OfRule site.name) (reshapeType site) := by
  refine .bind site.soleInput_ofRule fun input => .bind required_ofRule fun target => ?_
  split
  · exact .ok _
  · exact site.fail_ofRule rfl

/-- The rule for transposing blames the transpose. -/
theorem transposeType_ofRule : FailsOnly (Failure.OfRule site.name) (transposeType site) := by
  refine .bind site.soleInput_ofRule fun input => .bind required_ofRule fun axes => ?_
  split
  · exact .ok _
  · exact site.fail_ofRule rfl

/-- The rule for squeezing blames the squeeze, whether its axes are given or not. -/
theorem squeezeType_ofRule : FailsOnly (Failure.OfRule site.name) (squeezeType site) := by
  refine .bind site.soleInput_ofRule fun input => ?_
  split
  · exact .ok _
  · split
    · exact site.fail_ofRule rfl
    · split
      · exact site.fail_ofRule rfl
      · exact .ok _

/-- The rule for unsqueezing blames the unsqueeze. -/
theorem unsqueezeType_ofRule : FailsOnly (Failure.OfRule site.name) (unsqueezeType site) := by
  refine .bind site.soleInput_ofRule fun input => .bind required_ofRule fun axes => ?_
  dsimp only
  split
  · exact site.fail_ofRule rfl
  · split
    · exact site.fail_ofRule rfl
    · exact .ok _

/-- The rule shared by the element-wise kinds blames the node it types. -/
theorem elementwiseType_ofRule : FailsOnly (Failure.OfRule site.name) (elementwiseType site) := by
  refine .bind site.bothInputs_ofRule fun (left, right) =>
    .bind (site.expectSameElement_ofRule left right) fun _ => ?_
  split
  · exact .ok _
  · exact site.fail_ofRule rfl

/-- The rule for matrix products blames the product. -/
theorem matMulType_ofRule : FailsOnly (Failure.OfRule site.name) (matMulType site) := by
  refine .bind site.bothInputs_ofRule fun (left, right) =>
    .bind (site.expectSameElement_ofRule left right) fun _ => ?_
  split
  · split
    · exact site.fail_ofRule rfl
    · split
      · exact .ok _
      · exact site.fail_ofRule rfl
  · exact site.fail_ofRule rfl

/-- The inputs of a concatenation are checked one after the other. The first that
does not fit is what the node is blamed for. -/
theorem concatDim_ofRule (first : TensorType) (axis total : Nat) (rest : List TensorType) :
    FailsOnly (Failure.OfRule site.name) (concatDim site first axis total rest) := by
  induction rest generalizing total with
  | nil => exact .ok total
  | cons other rest inductionHypothesis =>
    refine .bind (site.expectSameElement_ofRule first other) fun _ => ?_
    split
    · exact inductionHypothesis _
    · exact site.fail_ofRule rfl

/-- The rule for concatenation blames the concatenation. -/
theorem concatType_ofRule : FailsOnly (Failure.OfRule site.name) (concatType site) := by
  unfold concatType
  split
  · exact site.fail_ofRule rfl
  · refine .bind required_ofRule fun axis => ?_
    split
    · exact site.fail_ofRule rfl
    · exact .bind (concatDim_ofRule site _ _ _ _) fun _ => .ok _

/-- The bounds of a range are checked one after the other. A bound may be missing,
of another type, or not fit. -/
theorem checkBounds_ofRule (input : Shape) (bounds : List String) :
    FailsOnly (Failure.OfRule site.name) (checkBounds site input bounds) := by
  induction bounds with
  | nil => exact .ok ()
  | cons bound rest inductionHypothesis =>
    refine .bind required_ofRule fun value => ?_
    split
    · exact inductionHypothesis
    · exact site.fail_ofRule rfl

/-- The rule for quantization ranges blames the range, for its levels and its bounds
alike. -/
theorem rangeType_ofRule : FailsOnly (Failure.OfRule site.name) (rangeType site) := by
  refine .bind site.soleInput_ofRule fun input => ?_
  split
  · exact site.fail_ofRule rfl
  · exact .bind (checkBounds_ofRule site _ _) fun _ =>
      .bind required_ofRule fun _ => .ok input

/-- Every rule that refuses a node names it. There is one case for each rule and
none for each kind, where kinds share a rule. -/
theorem outputType_ofRule [Arithmetic α] :
    FailsOnly (Failure.OfRule site.name) (outputType site) := by
  unfold outputType
  split
  · exact parameterType_ofRule site
  · exact constantType_ofRule site
  · exact site.soleInput_ofRule
  · exact site.soleInput_ofRule
  · exact site.soleInput_ofRule
  · exact convertType_ofRule site
  · exact clampType_ofRule site
  · exact reshapeType_ofRule site
  · exact transposeType_ofRule site
  · exact squeezeType_ofRule site
  · exact unsqueezeType_ofRule site
  · exact elementwiseType_ofRule site
  · exact elementwiseType_ofRule site
  · exact elementwiseType_ofRule site
  · exact matMulType_ofRule site
  · exact concatType_ofRule site
  · exact rangeType_ofRule site

end Rules

end Typing

/-- The failure to type a node names it. The inputs themselves are never blamed. -/
theorem inferOutputs_ofRule [Arithmetic α] {kind : OpKind} {name : String}
    {inputs : List TensorType} {attributes : Attributes α} :
    FailsOnly (Failure.OfRule name) (inferOutputs kind name inputs attributes) :=
  (Typing.outputType_ofRule ⟨kind, name, inputs, attributes⟩).map _

/-- A failure of a rule is no cycle. An edit can therefore tell its own faults from
those of typing. -/
theorem Failure.OfRule.blamesNoCycle {name : String} {failure : Failure}
    (ofRule : failure.OfRule name) : failure.BlamesNoCycle := by
  cases ofRule with
  | ofInputs acyclic => exact acyclic
  | ofAttribute key fault => trivial

/-- Looking a node up does not report a cycle either. -/
theorem Graph.nodeAt_blamesNoCycle (graph : Graph α) (id : NodeId) :
    FailsOnly Failure.BlamesNoCycle (graph.nodeAt id) := by
  unfold nodeAt
  split
  · exact .ok _
  · exact .error trivial

variable [Arithmetic α]

/-- Typing a node from a draft fails only in the name of that node, its inputs being
live. -/
theorem TypeDraft.infer_ofRule (draft : TypeDraft) (graph : Graph α) (node : Node α) :
    FailsOnly (Failure.OfRule node.name) (draft.infer graph node) := by
  have reading : FailsOnly (Failure.OfRule node.name) (draft.inputTypes graph node) := by
    refine .mapM (fun source => ?_) node.inputs
    split
    · exact .ok _
    · exact .error (.ofInputs rfl)
  refine .bind reading fun inputs => .bind inferOutputs_ofRule fun types => ?_
  split
  · exact .error (.ofInputs rfl)
  · exact .ok types

/-- Whatever stops the visits, it is not a cycle. By induction on the budget;
running out of it is no cycle either. -/
theorem TypeDraft.settle_blamesNoCycle (graph : Graph α) (budget : Nat) (waiting : List NodeId)
    (draft : TypeDraft) :
    FailsOnly Failure.BlamesNoCycle (settle graph budget waiting draft) := by
  fun_induction settle graph budget waiting draft with
  | case1 _ draft => exact .ok draft
  | case2 => exact .error trivial
  | case3 budget id waiting draft failure missing =>
    exact .error (graph.nodeAt_blamesNoCycle id failure missing)
  | case4 budget id waiting draft node found failure refused =>
    exact .error (draft.infer_ofRule graph node failure refused).blamesNoCycle
  | case5 _ _ _ _ _ _ _ _ _ _ inductionHypothesis => exact inductionHypothesis
  | case6 _ _ _ _ _ _ _ _ _ _ _ inductionHypothesis => exact inductionHypothesis
  | case7 _ _ _ _ _ _ _ _ _ _ _ inductionHypothesis => exact inductionHypothesis

end RangeFold
