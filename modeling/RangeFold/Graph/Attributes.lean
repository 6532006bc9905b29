import RangeFold.Graph.Basic

/-!
# Attributes

Reading and writing named attributes. A name holds one value; giving it another
one keeps the place of the first. The typed readings answer only for a value of
their own type, and the required ones say what stood in the way.
-/

namespace RangeFold

variable {α : Type}

/-- The type of an attribute as it stands in messages. -/
def AttributeValue.typeName : AttributeValue α → String
  | .int _ => "int"
  | .float _ => "float"
  | .ints _ => "ints"
  | .shape _ => "shape"
  | .element _ => "type"
  | .text _ => "string"
  | .tensor _ => "tensor"
  | .graph _ => "graph"

namespace Attributes

/-- No attributes. -/
def empty : Attributes α := ⟨[]⟩

/-- Set the value of a name in a list of entries, at its old place if it has one. -/
def insertEntry (name : String) (value : AttributeValue α) :
    List (String × AttributeValue α) → List (String × AttributeValue α)
  | [] => [(name, value)]
  | (key, old) :: rest =>
    if key = name then (name, value) :: rest else (key, old) :: insertEntry name value rest

/-- Set the value of a name. -/
def insert (attributes : Attributes α) (name : String) (value : AttributeValue α) : Attributes α :=
  ⟨insertEntry name value attributes.entries⟩

/-- The attributes of a list of named values, later values winning. -/
def ofList (entries : List (String × AttributeValue α)) : Attributes α :=
  entries.foldl (fun attributes (name, value) => attributes.insert name value) empty

/-- The value of a name, of whatever type. -/
def get (attributes : Attributes α) (name : String) : Option (AttributeValue α) :=
  attributes.entries.lookup name

/-- The name has a value. -/
def contains (attributes : Attributes α) (name : String) : Bool := (attributes.get name).isSome

/-- The number of names that have a value. -/
def size (attributes : Attributes α) : Nat := attributes.entries.length

/-- The value of a name if it is an integer. -/
def int (attributes : Attributes α) (name : String) : Option Int :=
  match attributes.get name with
  | some (.int value) => some value
  | _ => none

/-- The value of a name if it is a floating-point number. -/
def float (attributes : Attributes α) (name : String) : Option α :=
  match attributes.get name with
  | some (.float value) => some value
  | _ => none

/-- The value of a name if it is a list of integers. -/
def ints (attributes : Attributes α) (name : String) : Option (List Int) :=
  match attributes.get name with
  | some (.ints values) => some values
  | _ => none

/-- The value of a name if it is a shape. -/
def shape (attributes : Attributes α) (name : String) : Option Shape :=
  match attributes.get name with
  | some (.shape shape) => some shape
  | _ => none

/-- The value of a name if it is an element type. -/
def element (attributes : Attributes α) (name : String) : Option ElementType :=
  match attributes.get name with
  | some (.element element) => some element
  | _ => none

/-- The value of a name if it is a text. -/
def text (attributes : Attributes α) (name : String) : Option String :=
  match attributes.get name with
  | some (.text text) => some text
  | _ => none

/-- The value of a name if it is an array. -/
def tensor (attributes : Attributes α) (name : String) : Option (Tensor α) :=
  match attributes.get name with
  | some (.tensor tensor) => some tensor
  | _ => none

/-- The value of a name if it is a graph. -/
def graph (attributes : Attributes α) (name : String) : Option (Graph α) :=
  match attributes.get name with
  | some (.graph graph) => some graph
  | _ => none

/-- Why an attribute cannot be read at the expected type. -/
def faultOf (attributes : Attributes α) (name expected : String) : AttributeFault :=
  match attributes.get name with
  | some value => .wrongType expected value.typeName
  | none => .missing

/-- A reading that must succeed; the failure names the node it is made for. -/
def required {β : Type} (attributes : Attributes α) (node name expected : String)
    (reading : Attributes α → String → Option β) : Except Failure β :=
  match reading attributes name with
  | some value => .ok value
  | none => .error (.invalidAttribute node name (attributes.faultOf name expected))

/-- The integer of a name, or the complaint that there is none. -/
def requireInt (attributes : Attributes α) (node name : String) : Except Failure Int :=
  attributes.required node name "int" int

/-- The floating-point number of a name, or the complaint that there is none. -/
def requireFloat (attributes : Attributes α) (node name : String) : Except Failure α :=
  attributes.required node name "float" float

/-- The list of integers of a name, or the complaint that there is none. -/
def requireInts (attributes : Attributes α) (node name : String) : Except Failure (List Int) :=
  attributes.required node name "ints" ints

/-- The array of a name, or the complaint that there is none. -/
def requireTensor (attributes : Attributes α) (node name : String) : Except Failure (Tensor α) :=
  attributes.required node name "tensor" tensor

/-- A name just set reads back its value. -/
theorem get_insert_self (attributes : Attributes α) (name : String) (value : AttributeValue α) :
    (attributes.insert name value).get name = some value := by
  have entries (items : List (String × AttributeValue α)) :
      (insertEntry name value items).lookup name = some value := by
    induction items with
    | nil => simp [insertEntry]
    | cons item rest inductionHypothesis =>
      obtain ⟨key, old⟩ := item
      by_cases same : key = name
      · simp [insertEntry, same]
      · simp only [insertEntry, same, if_false, List.lookup_cons]
        rw [beq_false_of_ne (Ne.symm same)]
        exact inductionHypothesis
  exact entries attributes.entries

end Attributes

end RangeFold
