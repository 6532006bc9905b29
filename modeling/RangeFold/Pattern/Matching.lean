import RangeFold.Pattern.Basic
import RangeFold.Graph.Order

/-!
# Matching

A pattern matches at a node when each of its places lies on a live node that
passes the place's tests and any two places with one label lie on one node. Since
a child's node is fixed by its position there is never a choice: matching is one
walk over the pattern in pre-order, which stops at the first place that fails.
-/

namespace RangeFold

/-- Where the places of a pattern came to lie: the nodes in pre-order, and those
bound to labels in the order in which the labels first occur. -/
structure Binding where
  root : NodeId
  labels : List (String × NodeId)
  matched : List NodeId
deriving DecidableEq

namespace Binding

/-- The binding of a root before any place has been laid. -/
def start (root : NodeId) : Binding := ⟨root, [], []⟩

/-- The node of a label. -/
def get (binding : Binding) (label : String) : Option NodeId := binding.labels.lookup label

/-- The number of places laid. -/
def size (binding : Binding) : Nat := binding.matched.length

/-- Bind a label. A label that is bound already must keep its node. -/
def bindLabel (binding : Binding) (label : Option String) (id : NodeId) : Option Binding :=
  match label with
  | none => some binding
  | some label =>
    match binding.get label with
    | none => some { binding with labels := binding.labels ++ [(label, id)] }
    | some bound => if bound = id then some binding else none

/-- Count a node as laid under. -/
def lay (binding : Binding) (id : NodeId) : Binding :=
  { binding with matched := binding.matched ++ [id] }

end Binding

variable {α : Type}

namespace Pattern

/-- The tests of one place on the node it lies on. -/
def admits (pattern : Pattern α) (node : Node α) : Bool :=
  pattern.test.accepts node.kind && decide (pattern.children.length ≤ node.inputs.length) &&
    match pattern.condition with
    | some condition => condition node
    | none => true

mutual

/-- Lay a pattern on a node, continuing a binding. -/
def layOn (graph : Graph α) : Pattern α → NodeId → Binding → Option Binding
  | ⟨test, label, children, condition⟩, id, binding =>
    match graph.node id with
    | none => none
    | some node =>
      if admits ⟨test, label, children, condition⟩ node then
        match binding.bindLabel label id with
        | none => none
        | some bound => layAll graph children node.inputs (bound.lay id)
      else none
termination_by structural pattern => pattern

/-- Lay patterns on the producers of successive inputs. -/
def layAll (graph : Graph α) : List (Pattern α) → List OutputRef → Binding → Option Binding
  | child :: rest, source :: sources, binding =>
    match layOn graph child source.node binding with
    | none => none
    | some laid => layAll graph rest sources laid
  | _, _, binding => some binding
termination_by structural patterns => patterns

end

/-- Match at a root. -/
def matchAt (pattern : Pattern α) (graph : Graph α) (root : NodeId) : Option Binding :=
  pattern.layOn graph root (Binding.start root)

/-- All matches, by topological order of their roots. -/
def findAll (pattern : Pattern α) (graph : Graph α) : List Binding :=
  graph.order.filterMap (pattern.matchAt graph)

end Pattern

end RangeFold
