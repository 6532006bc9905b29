import RangeFold.Quantization.Layout
import RangeFold.Quantization.Node
import RangeFold.Proofs.Graph.Acyclic

/-!
# Evaluation

What a graph computes. The operations that a run may carry out at compile time have the
meaning that it gives them; every other operation means whatever an interpretation says,
as a partial function of its attributes and the arrays it reads.

A graph is evaluated from its entries on. On an acyclic graph its values are the only
ones that satisfy the equation of every node, so two graphs are compared by showing that
the values of the one satisfy the equations of the other.
-/

namespace RangeFold

variable {α : Type}

/-- The meaning of the operations that a run does not carry out. -/
structure Interpretation (α : Type) where
  apply : OpKind → Attributes α → List (Tensor α) → Option (Tensor α)

/-- An array for every entry. -/
abbrev Assignment (α : Type) := NodeId → Tensor α

/-- The only value of a list. -/
def soleValue {β : Type} : List β → Option β
  | [value] => some value
  | _ => none

/-- The values of a list, if all are there. -/
def allValues {β : Type} : List (Option β) → Option (List β)
  | [] => some []
  | none :: _ => none
  | some value :: rest => (allValues rest).map (value :: ·)

/-- The array that a value of a graph stands for. Every node has one output. -/
def inputValue (values : NodeId → Option (Tensor α)) (source : OutputRef) : Option (Tensor α) :=
  if source.slot = 0 then values source.node else none

namespace Node

variable [Arithmetic α]

/-- The array that a node makes of those it reads. -/
def denote (interpretation : Interpretation α) (node : Node α) (inputs : List (Tensor α)) :
    Option (Tensor α) :=
  match node.kind with
  | .constant => node.attributes.tensor "value"
  | .result | .identity => soleValue inputs
  | .reshape | .transpose | .squeeze | .unsqueeze =>
    (soleValue inputs).bind fun value => (node.evaluate value).toOption
  | .quantizeRange =>
    (soleValue inputs).bind fun value =>
      ((QuantRange.ofNode node).bind fun range => range.apply node.name value).toOption
  | kind => interpretation.apply kind node.attributes inputs

/-- The array of a node, given those of all nodes. An entry has the array given to it. -/
def valueFrom (interpretation : Interpretation α) (given : Tensor α)
    (values : NodeId → Option (Tensor α)) (node : Node α) : Option (Tensor α) :=
  if node.kind = .parameter then some given
  else (allValues (node.inputs.map (inputValue values))).bind (node.denote interpretation)

end Node

namespace Graph

variable [Arithmetic α]

/-- The equation of a node. -/
def valueFrom (graph : Graph α) (interpretation : Interpretation α) (assignment : Assignment α)
    (values : NodeId → Option (Tensor α)) (id : NodeId) : Option (Tensor α) :=
  match graph.node id with
  | some node => node.valueFrom interpretation (assignment id) values
  | none => none

/-- The values of all nodes that no path of the given length leads to. -/
def valueWithin (graph : Graph α) (interpretation : Interpretation α)
    (assignment : Assignment α) : Nat → NodeId → Option (Tensor α)
  | 0, _ => none
  | steps + 1, id =>
    graph.valueFrom interpretation assignment
      (graph.valueWithin interpretation assignment steps) id

/-- The value of a node. No path is longer than there are places. -/
def value (graph : Graph α) (interpretation : Interpretation α) (assignment : Assignment α)
    (id : NodeId) : Option (Tensor α) :=
  graph.valueWithin interpretation assignment graph.arena.length id

end Graph

/-- Names only label failures. The outcome is the same when both succeed, and they
fail together. -/
theorem QuantRange.apply_toOption [Arithmetic α] (range : QuantRange α) (name other : String)
    (data : Tensor α) : (range.apply name data).toOption = (range.apply other data).toOption := by
  have levels (node : String) : (range.checkLevels node).toOption =
      if range.levels < 2 then none else some () := by
    unfold checkLevels
    split <;> rfl
  have bound (node label : String) (value : Tensor α) :
      (checkBound node label value data.shape).toOption =
        if value.shape.fits data.shape then some () else none := by
    unfold checkBound
    split <;> rfl
  simp only [QuantRange.apply, Typing.toOption_bind, levels, bound, Typing.toOption_pure]

/-- Whether a range can be read off a node depends on its kind and its attributes
alone. -/
theorem QuantRange.ofNode_toOption (node : Node α) : (QuantRange.ofNode node).toOption =
    if node.kind = .quantizeRange then (ofAttributes "" node.attributes).toOption else none := by
  unfold ofNode
  split
  · simp only [ofAttributes, Typing.toOption_bind, Attributes.requireTensor, Attributes.requireInt,
      Typing.required_toOption]
  · rfl

namespace Node

variable [Arithmetic α]

/-- Carrying out a layout operation depends on its kind, attributes and output type.
It does so up to the wording of failures. -/
theorem evaluate_toOption {node other : Node α} (kind : other.kind = node.kind)
    (attributes : other.attributes = node.attributes)
    (types : other.outputType 0 = node.outputType 0) (value : Tensor α) :
    (other.evaluate value).toOption = (node.evaluate value).toOption := by
  unfold evaluate
  rw [types, kind, attributes]
  cases node.outputType 0 with
  | none => rfl
  | some type =>
    cases node.kind with
    | transpose =>
      simp only [Typing.toOption_bind, Attributes.requireInts, Typing.required_toOption]
      congr 1
      funext axes
      cases permutationOf axes value.rank <;> rfl
    | _ => rfl

/-- What a node makes of its inputs does not depend on its name or its readers.
Edits that leave the kind, the attributes and the types leave the meaning. -/
theorem denote_congr {node other : Node α} (kind : other.kind = node.kind)
    (attributes : other.attributes = node.attributes)
    (types : other.outputType 0 = node.outputType 0) (interpretation : Interpretation α) :
    other.denote interpretation = node.denote interpretation := by
  have evaluate := evaluate_toOption kind attributes types
  have range (value : Tensor α) :
      ((QuantRange.ofNode other).bind fun range => range.apply other.name value).toOption =
        ((QuantRange.ofNode node).bind fun range => range.apply node.name value).toOption := by
    have same := Typing.toOption_bind (QuantRange.ofNode other)
      fun range => range.apply other.name value
    refine same.trans (Eq.trans ?_ (Typing.toOption_bind (QuantRange.ofNode node)
      fun range => range.apply node.name value).symm)
    rw [QuantRange.ofNode_toOption, QuantRange.ofNode_toOption, kind, attributes]
    congr 1
    funext range
    exact range.apply_toOption other.name node.name value
  funext inputs
  unfold denote
  rw [kind, attributes]
  simp only [evaluate, range]

/-- Only the values a node reads enter its equation. Nodes that read the same values
therefore have the same. -/
theorem valueFrom_congr {node other : Node α} (kind : other.kind = node.kind)
    (attributes : other.attributes = node.attributes)
    (types : other.outputType 0 = node.outputType 0) {values valuesOther : NodeId → Option (Tensor α)}
    (inputs : other.inputs.map (inputValue valuesOther) = node.inputs.map (inputValue values))
    (interpretation : Interpretation α) (given : Tensor α) :
    other.valueFrom interpretation given valuesOther =
      node.valueFrom interpretation given values := by
  simp only [valueFrom, kind, inputs, denote_congr kind attributes types]

end Node

namespace Graph

variable {graph : Graph α}

section Values

variable [Arithmetic α] {interpretation : Interpretation α} {assignment : Assignment α}

/-- The equation of a node depends on the values of its producers. Values of other
nodes may differ without being noticed. -/
theorem valueFrom_congr {values other : NodeId → Option (Tensor α)} {id : NodeId}
    (agree : ∀ producer, graph.Feeds producer id → values producer = other producer) :
    graph.valueFrom interpretation assignment values id =
      graph.valueFrom interpretation assignment other id := by
  unfold valueFrom
  cases found : graph.node id with
  | none => rfl
  | some node =>
    apply Node.valueFrom_congr rfl rfl rfl
    apply List.map_congr_left
    intro source listed
    obtain ⟨input, placed⟩ := List.getElem?_of_mem listed
    simp only [inputValue, agree source.node ⟨input, source.slot, node, found, placed⟩]

variable (linked : graph.Linked) (acyclic : graph.Acyclic)

include linked acyclic

/-- Values that satisfy the equations of some nodes and of all that feed them are those
that evaluation finds, given more steps than there are nodes behind. -/
theorem valueWithin_eq {values : NodeId → Option (Tensor α)} {within : NodeId → Prop}
    (closed : ∀ producer reader, graph.Feeds producer reader → within reader → within producer)
    (equations : ∀ id, within id →
      values id = graph.valueFrom interpretation assignment values id)
    (steps : Nat) {id : NodeId} (member : within id) (enough : graph.behind id < steps) :
    graph.valueWithin interpretation assignment steps id = values id := by
  induction steps generalizing id with
  | zero => exact absurd enough (Nat.not_lt_zero _)
  | succ steps inductionHypothesis =>
    rw [valueWithin, equations id member]
    apply valueFrom_congr
    intro producer feeds
    have earlier := behind_lt linked acyclic feeds
    exact inductionHypothesis (closed producer id feeds member) (by omega)

/-- What evaluation finds does not depend on the number of steps, if there are
enough. A node needs one step more than those behind it, and no graph has more
behind a node than nodes. -/
theorem valueWithin_stable (steps : Nat) {id : NodeId} (enough : graph.behind id < steps) :
    graph.valueWithin interpretation assignment steps id =
      graph.valueWithin interpretation assignment (graph.behind id + 1) id := by
  induction steps using Nat.strong_induction_on generalizing id with
  | _ steps inductionHypothesis =>
    obtain ⟨spent, rfl⟩ : ∃ spent, steps = spent + 1 := ⟨steps - 1, by omega⟩
    rw [valueWithin, valueWithin]
    apply valueFrom_congr
    intro producer feeds
    have earlier := behind_lt linked acyclic feeds
    rw [inductionHypothesis spent (Nat.lt_succ_self _) (by omega)]
    by_cases last : graph.behind id = spent
    · rw [last, inductionHypothesis spent (Nat.lt_succ_self _) (by omega)]
    · rw [inductionHypothesis (graph.behind id) (by omega) earlier]

/-- The values of a graph satisfy the equation of every node. This is how values are
used; how they were computed is not looked at again. -/
theorem value_eq_valueFrom (id : NodeId) : graph.value interpretation assignment id =
    graph.valueFrom interpretation assignment (graph.value interpretation assignment) id := by
  cases found : graph.node id with
  | none =>
    have missing (steps : Nat) : graph.valueWithin interpretation assignment steps id = none := by
      cases steps <;> simp [valueWithin, valueFrom, found]
    rw [value, missing, valueFrom, found]
  | some node =>
    have places := behind_lt_length acyclic found
    rw [value, valueWithin_stable linked acyclic _ places, valueWithin]
    apply valueFrom_congr
    intro producer feeds
    have earlier := behind_lt linked acyclic feeds
    rw [value, valueWithin_stable linked acyclic _ earlier,
      valueWithin_stable linked acyclic _ (earlier.trans places)]

/-- There are no other values that do. The part of the graph that the equations are
known for has to contain what feeds it. -/
theorem value_unique {values : NodeId → Option (Tensor α)} {within : NodeId → Prop}
    (closed : ∀ producer reader, graph.Feeds producer reader → within reader → within producer)
    (equations : ∀ id, within id →
      values id = graph.valueFrom interpretation assignment values id)
    {id : NodeId} (member : within id) : graph.value interpretation assignment id = values id := by
  cases found : graph.node id with
  | none =>
    rw [value_eq_valueFrom linked acyclic, equations id member, valueFrom, valueFrom, found]
  | some node =>
    exact valueWithin_eq linked acyclic closed equations _ member (behind_lt_length acyclic found)

end Values

end Graph

end RangeFold
