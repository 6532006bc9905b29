import RangeFold.Failure
import RangeFold.Number.Decimal

/-!
# Pass parameters

Named scalar settings of a pass. They are kept in the order of their names, so the
first unknown parameter is the one whose name comes first.
-/

namespace RangeFold

/-- The value of a pass parameter: a scalar of one of four types. -/
inductive ParameterValue where
  | truth (value : Bool)
  | int (value : Int)
  | real (value : Binary64)
  | text (value : String)
deriving DecidableEq

/-- The value as it stands in messages. A text is put between marks as it is. -/
def ParameterValue.shown : ParameterValue → String
  | .truth value => if value then "true" else "false"
  | .int value => toString value
  | .real value => value.text
  | .text value => "\"" ++ value ++ "\""

/-- Values by increasing name. -/
abbrev ParameterMap := List (String × ParameterValue)

namespace ParameterMap

/-- Set the value of a name. -/
def insert (name : String) (value : ParameterValue) : ParameterMap → ParameterMap
  | [] => [(name, value)]
  | (key, old) :: rest =>
    if key = name then (name, value) :: rest
    else if name < key then (name, value) :: (key, old) :: rest
    else (key, old) :: insert name value rest

/-- The map of a list of named values, later values winning. -/
def ofList (entries : List (String × ParameterValue)) : ParameterMap :=
  entries.foldl (fun values (name, value) => insert name value values) []

end ParameterMap

/-- The parameters given to the pass of a name. -/
structure Parameters where
  pass : String
  values : ParameterMap
deriving DecidableEq

namespace Parameters

/-- The value of a name, if there is one. -/
def get (parameters : Parameters) (name : String) : Option ParameterValue :=
  parameters.values.lookup name

/-- Refuse a parameter on the pass's account. -/
def refuse {β : Type} (parameters : Parameters) (name : String) (fault : ParameterFault) :
    Except Failure β :=
  .error (.invalidParameter parameters.pass name fault)

/-- Every parameter is one of the known ones. -/
def checkKnown (parameters : Parameters) (known : List String) : Except Failure Unit :=
  match parameters.values.find? fun (name, _) => !known.contains name with
  | some (name, _) => parameters.refuse name .unknown
  | none => .ok ()

/-- A count: an integer that is not negative. -/
def natural (parameters : Parameters) (name : String) (default : Nat) : Except Failure Nat :=
  match parameters.get name with
  | none => .ok default
  | some (.int value) =>
    if value < 0 then parameters.refuse name (.negative value) else .ok value.toNat
  | some other => parameters.refuse name (.integerExpected other.shown)

/-- The truth value of a name, or the default where nothing is stated. A value of
another type is refused. -/
def truth (parameters : Parameters) (name : String) (default : Bool) : Except Failure Bool :=
  match parameters.get name with
  | none => .ok default
  | some (.truth value) => .ok value
  | some other => parameters.refuse name (.truthValueExpected other.shown)

/-- A number; an integer is rounded to a double. -/
def real (parameters : Parameters) (name : String) (default : Binary64) :
    Except Failure Binary64 :=
  match parameters.get name with
  | none => .ok default
  | some (.real value) => .ok value
  | some (.int value) => .ok (Binary.ofInt value)
  | some other => parameters.refuse name (.numberExpected other.shown)

end Parameters

end RangeFold
