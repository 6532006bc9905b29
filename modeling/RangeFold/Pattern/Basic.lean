import RangeFold.Graph.Query

/-!
# Patterns

A pattern is a tree laid over the edges from readers to producers. Each of its
places tests the kind of the node it lies on, may bind the node to a label, may
demand more of it by a condition, and has a child for each of the node's first
inputs.
-/

namespace RangeFold

/-- The kinds that a place of a pattern accepts. -/
inductive KindTest where
  | exactly (kind : OpKind)
  | oneOf (kinds : List OpKind)
  | anything
deriving DecidableEq

/-- The kind passes the test. -/
def KindTest.accepts : KindTest → OpKind → Bool
  | exactly wanted, kind => wanted == kind
  | oneOf wanted, kind => wanted.contains kind
  | anything, _ => true

/-- A place of a pattern with the places below it. -/
structure Pattern (α : Type) where
  test : KindTest
  label : Option String
  children : List (Pattern α)
  condition : Option (Node α → Bool)

namespace Pattern

variable {α : Type}

/-- A single place without label, children or condition. -/
def ofTest (test : KindTest) : Pattern α := ⟨test, none, [], none⟩

/-- A place for nodes of one kind, with no places below it. -/
def ofKind (kind : OpKind) : Pattern α := ofTest (.exactly kind)

/-- A place for nodes of some kinds, with no places below it. -/
def ofKinds (kinds : List OpKind) : Pattern α := ofTest (.oneOf kinds)

/-- A place for any node. -/
def anything : Pattern α := ofTest .anything

/-- The same pattern with a label at its top place. -/
def labelled (pattern : Pattern α) (label : String) : Pattern α :=
  { pattern with label := some label }

/-- Lay a further pattern over the producer of the next input. -/
def withChild (pattern child : Pattern α) : Pattern α :=
  { pattern with children := pattern.children ++ [child] }

/-- Demand a condition of the root's node, in place of an earlier one. -/
def withCondition (pattern : Pattern α) (condition : Node α → Bool) : Pattern α :=
  { pattern with condition := some condition }

/-- The number of labels a chain gives out. -/
def chainLabels : Nat := 8

/-- A chain of first inputs from the given position on. The first places are labelled
by their position; deeper ones must match but carry no label. -/
def chainFrom : Nat → List OpKind → Option (Pattern α)
  | _, [] => none
  | position, kind :: rest =>
    some ⟨.exactly kind, if position < chainLabels then some (toString position) else none,
      (chainFrom (position + 1) rest).toList, none⟩

/-- Nodes of the given kinds, each the first input of the one before. -/
def chain (kinds : List OpKind) : Pattern α := (chainFrom 0 kinds).getD anything

mutual

/-- The number of places on the longest path from the root. -/
def depth : Pattern α → Nat
  | ⟨_, _, children, _⟩ => 1 + depthOfAll children
termination_by structural pattern => pattern

/-- The greatest depth in a list, 0 if it is empty. -/
def depthOfAll : List (Pattern α) → Nat
  | [] => 0
  | child :: rest => max (depth child) (depthOfAll rest)
termination_by structural patterns => patterns

end

/-- A quantization range, whatever feeds it. -/
def quantizeRange : Pattern α :=
  ((ofKind .quantizeRange).labelled "q").withChild (anything.labelled "src")

/-- An operation on a quantization range and a constant, in this order. -/
def rangeThenConstant (kinds : List OpKind) : Pattern α :=
  (((ofKinds kinds).labelled "op").withChild ((ofKind .quantizeRange).labelled "q")).withChild
    ((ofKind .constant).labelled "c")

/-- An operation on a constant and a quantization range, in this order. -/
def constantThenRange (kinds : List OpKind) : Pattern α :=
  (((ofKinds kinds).labelled "op").withChild ((ofKind .constant).labelled "c")).withChild
    ((ofKind .quantizeRange).labelled "q")

/-- An identity node. -/
def identity : Pattern α := (ofKind .identity).labelled "identity"

end Pattern

end RangeFold
