import RangeFold.Graph.Attributes

/-!
# Structural equality

Two graphs are the same when their arenas agree place by place, empty places
included, and their bookkeeping agrees. Numbers are compared in their own sense, so
a graph that holds something that is not a number differs from itself. The order of
attributes does not matter, nor does the order of the name index.
-/

namespace RangeFold

/-- Two lists of named things with the same names hold equal things under them. -/
def sameEntries {β : Type} (same : β → β → Bool) (left right : List (String × β)) : Bool :=
  left.length == right.length &&
    left.all fun (name, value) =>
      match right.lookup name with
      | some other => same value other
      | none => false

variable {α : Type} [Arithmetic α]

mutual

/-- Values of one type are compared by what they hold; floating-point numbers
numerically. -/
def AttributeValue.same : AttributeValue α → AttributeValue α → Bool
  | .int left, .int right => left == right
  | .float left, .float right => Arithmetic.same left right
  | .ints left, .ints right => left == right
  | .shape left, .shape right => left == right
  | .element left, .element right => left == right
  | .text left, .text right => left == right
  | .tensor left, .tensor right => left.same right
  | .graph left, .graph right => left.same right
  | _, _ => false
termination_by structural left => left

/-- Each named value has an equal one of the same name on the right. -/
def AttributeValue.sameNamed :
    List (String × AttributeValue α) → List (String × AttributeValue α) → Bool
  | [], _ => true
  | entry :: rest, right =>
    AttributeValue.sameAmong entry right && AttributeValue.sameNamed rest right
termination_by structural left => left

/-- The value has an equal one under its name among the entries. -/
def AttributeValue.sameAmong :
    String × AttributeValue α → List (String × AttributeValue α) → Bool
  | (name, value), right =>
    match right.lookup name with
    | some other => value.same other
    | none => false
termination_by structural left => left

/-- Attributes are equal if they are as many and each has its equal, in whatever
order they were set. -/
def Attributes.same : Attributes α → Attributes α → Bool
  | ⟨left⟩, right =>
    left.length == right.entries.length && AttributeValue.sameNamed left right.entries
termination_by structural left => left

/-- Nodes are equal in all their fields, consumer lists included. -/
def Node.same : Node α → Node α → Bool
  | ⟨kind, name, inputs, outputs, attributes⟩, right =>
    kind == right.kind && name == right.name && inputs == right.inputs &&
      outputs == right.outputs && attributes.same right.attributes
termination_by structural left => left

/-- A place of the arena is free in both graphs or holds equal nodes. -/
def Node.samePlace : Option (Node α) → Option (Node α) → Bool
  | none, none => true
  | some left, some right => left.same right
  | _, _ => false
termination_by structural left => left

/-- Arenas are equal place by place, so freed places count. -/
def Node.samePlaces : List (Option (Node α)) → List (Option (Node α)) → Bool
  | [], [] => true
  | left :: leftRest, right :: rightRest =>
    Node.samePlace left right && Node.samePlaces leftRest rightRest
  | _, _ => false
termination_by structural left => left

/-- Graphs are equal in their arenas, their name indices and their interfaces. -/
def Graph.same : Graph α → Graph α → Bool
  | ⟨arena, names, parameters, results, live⟩, right =>
    Node.samePlaces arena right.arena &&
      sameEntries (· == ·) names right.names &&
        parameters == right.parameters && results == right.results && live == right.live
termination_by structural left => left

end

end RangeFold
