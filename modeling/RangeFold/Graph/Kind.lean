/-!
# Operation kinds

The closed set of operations a node can stand for. Kinds that only move or
relabel elements are transparent to quantization: a grid applied after them can
be applied before them.
-/

namespace RangeFold

/-- The kinds of operations that a node can stand for. -/
inductive OpKind where
  | parameter
  | constant
  | result
  | identity
  | convert
  | relu
  | clamp
  | reshape
  | transpose
  | squeeze
  | unsqueeze
  | add
  | subtract
  | multiply
  | matMul
  | concat
  | quantizeRange
deriving DecidableEq

namespace OpKind

/-- All kinds, in declaration order. -/
def all : List OpKind :=
  [parameter, constant, result, identity, convert, relu, clamp, reshape, transpose, squeeze,
    unsqueeze, add, subtract, multiply, matMul, concat, quantizeRange]

/-- The written name. -/
def text : OpKind → String
  | parameter => "Parameter"
  | constant => "Constant"
  | result => "Result"
  | identity => "Identity"
  | convert => "Convert"
  | relu => "Relu"
  | clamp => "Clamp"
  | reshape => "Reshape"
  | transpose => "Transpose"
  | squeeze => "Squeeze"
  | unsqueeze => "Unsqueeze"
  | add => "Add"
  | subtract => "Subtract"
  | multiply => "Multiply"
  | matMul => "MatMul"
  | concat => "Concat"
  | quantizeRange => "QuantizeRange"

/-- The kind of a written name. -/
def ofText? (name : String) : Option OpKind := all.find? fun kind => kind.text == name

/-- Graph entries and compile-time values, which have no inputs. -/
def isSource : OpKind → Bool
  | parameter | constant => true
  | _ => false

/-- Operations that only move or relabel elements. -/
def isLayout : OpKind → Bool
  | identity | reshape | transpose | squeeze | unsqueeze => true
  | _ => false

/-- A kind is found again by its own name. -/
theorem ofText?_text (kind : OpKind) : ofText? kind.text = some kind := by
  cases kind <;> decide

end OpKind

end RangeFold
