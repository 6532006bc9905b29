import RangeFold.Pattern.Basic
import RangeFold.Text.Quoted

/-!
# Descriptions of patterns

The written form of a pattern, for logs. A condition is a function and shows only
whether it is there.
-/

namespace RangeFold

/-- A test as it stands in a description. -/
def KindTest.description : KindTest → String
  | exactly kind => "Kind(" ++ kind.text ++ ")"
  | oneOf kinds => "AnyOf([" ++ ", ".intercalate (kinds.map OpKind.text) ++ "])"
  | anything => "Any"

namespace Pattern

variable {α : Type}

/-- An optional label. -/
def labelDescription : Option String → String
  | some label => "Some(" ++ quoted label ++ ")"
  | none => "None"

mutual

/-- A pattern with its children inside it. -/
def description : Pattern α → String
  | ⟨test, label, children, condition⟩ =>
    "PatternSpec \x7b op: " ++ test.description ++ ", label: " ++ labelDescription label ++
      ", children: [" ++ ", ".intercalate (descriptions children) ++ "], predicate: " ++
      (if condition.isSome then "true" else "false") ++ " \x7d"
termination_by structural pattern => pattern

/-- The descriptions of the places below, in order. -/
def descriptions : List (Pattern α) → List String
  | [] => []
  | child :: rest => description child :: descriptions rest
termination_by structural patterns => patterns

end

end Pattern

end RangeFold
