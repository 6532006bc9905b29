import RangeFold.Tensor.Axis
import RangeFold.Tensor.Basic
import RangeFold.Graph.Kind
import RangeFold.Graph.Reference

/-!
# Failures

What can go wrong in typing, editing and optimizing a graph. A failure states its
cause; its wording is one function of the cause. Passes written by others may give
a cause in their own words, for which each kind of cause has `stated`.

A failure is recoverable when it only concerns the quantization range a pass was
looking at. An optimizer reports such a failure and continues; any other stops it.
-/

namespace RangeFold

/-- Why a node's inputs do not fit its operation. -/
inductive TypingFault where
  | inputCount (kind : OpKind) (expected actual : Nat)
  | elementsDiffer (left right : ElementType)
  | notBroadcastable (left right : Shape)
  | reshape (fault : ReshapeFault)
  | permutation (fault : PermutationFault)
  | axesOutOfRange (axes : List Int)
  | axisOutOfRange (axis : Int)
  | squeezedDim (axis dim : Nat)
  | duplicateAxes (axes : List Nat)
  | matMulRank (left right : Nat)
  | innerDims (left right : Nat)
  | batchDims
  | emptyConcat
  | concatShapes (first other : Shape) (axis : Nat)
  | floatExpected (actual : ElementType)
  | boundBeyondInput (bound : String) (shape input : Shape)
  | boundBeyondData (bound : String) (shape data : Shape)
  | deadInput (source : OutputRef)
  | deadReference (input : Nat) (source : OutputRef)
  | inputCycle (input : Nat) (source : OutputRef)
  | replacementCycle (source : OutputRef)
  | outputCount (before after : Nat)
  | staleTypes
  | stated (text : String)
deriving DecidableEq

namespace TypingFault

/-- The text of a fault found by typing. -/
def message : TypingFault → String
  | inputCount kind expected actual =>
    kind.text ++ " expects " ++ toString expected ++ " input(s), got " ++ toString actual
  | elementsDiffer left right => "element types differ: " ++ left.text ++ " vs " ++ right.text
  | notBroadcastable left right =>
    "shapes " ++ listText left ++ " and " ++ listText right ++ " are not broadcastable"
  | reshape fault => fault.message
  | permutation fault => fault.message
  | axesOutOfRange axes => "axes " ++ listText axes ++ " out of range"
  | axisOutOfRange axis => "axis " ++ toString axis ++ " out of range"
  | squeezedDim axis dim => "cannot squeeze axis " ++ toString axis ++ " of size " ++ toString dim
  | duplicateAxes axes => "duplicate axes " ++ listText axes
  | matMulRank left right =>
    "MatMul needs rank >= 2 operands, got " ++ toString left ++ " and " ++ toString right
  | innerDims left right =>
    "inner dimensions differ: " ++ toString left ++ " vs " ++ toString right
  | batchDims => "batch dimensions are not broadcastable"
  | emptyConcat => "Concat needs at least one input"
  | concatShapes first other axis =>
    "cannot concatenate " ++ listText first ++ " with " ++ listText other ++ " on axis " ++
      toString axis
  | floatExpected actual => "quantization range needs a float input, got " ++ actual.text
  | boundBeyondInput bound shape input =>
    bound ++ " of shape " ++ listText shape ++ " does not broadcast to input " ++ listText input
  | boundBeyondData bound shape data =>
    bound ++ " of shape " ++ listText shape ++ " does not broadcast to " ++ listText data
  | deadInput source => "input " ++ source.text ++ " is not a live output"
  | deadReference input source =>
    "input " ++ toString input ++ " refers to dead output " ++ source.text
  | inputCycle input source =>
    "wiring input " ++ toString input ++ " to " ++ source.text ++ " would create a cycle"
  | replacementCycle source => "rewiring onto " ++ source.text ++ " would create a cycle"
  | outputCount before after =>
    "output count changed from " ++ toString before ++ " to " ++ toString after
  | staleTypes => "stored output types are stale"
  | stated text => text

end TypingFault

/-- Why a node cannot take part in an edit or an evaluation. -/
inductive NodeFault where
  | missingInput (name : String) (arity input : Nat)
  | replacedResult (name : String)
  | replacedByItself (name : String)
  | nothingToBridge (name : String) (input : Nat)
  | notRange (name : String) (kind : OpKind)
  | notEvaluable (name : String) (kind : OpKind)
  | missingValue (name : String)
  | stated (text : String)
deriving DecidableEq

namespace NodeFault

/-- A name as it stands in messages. -/
def quoted (name : String) : String := "'" ++ name ++ "'"

/-- The text of a fault about a node and its inputs. -/
def message : NodeFault → String
  | missingInput name arity input =>
    quoted name ++ " has " ++ toString arity ++ " inputs, cannot set input " ++ toString input
  | replacedResult name => "result " ++ quoted name ++ " cannot be replaced"
  | replacedByItself name => quoted name ++ " cannot be replaced by its own outputs"
  | nothingToBridge name input =>
    quoted name ++ " has no input " ++ toString input ++ " to bridge"
  | notRange name kind => quoted name ++ " is a " ++ kind.text ++ ", not a quantization range"
  | notEvaluable name kind =>
    quoted name ++ " is a " ++ kind.text ++ ", which cannot be evaluated at compile time"
  | missingValue name => quoted name ++ " has no value"
  | stated text => text

end NodeFault

/-- Why an attribute does not serve. -/
inductive AttributeFault where
  | missing
  | wrongType (expected found : String)
  | crossedLimits (least greatest : String)
  | stated (text : String)
deriving DecidableEq

namespace AttributeFault

/-- The text of a fault of one attribute, whose name stands before it. -/
def message : AttributeFault → String
  | missing => "missing"
  | wrongType expected found => "expected " ++ expected ++ ", found " ++ found
  | crossedLimits least greatest => "min " ++ least ++ " exceeds max " ++ greatest
  | stated text => text

end AttributeFault

/-- Why the bounds of a quantization range are not in order. -/
inductive RangeFault where
  | unrelatedBounds (side : String) (low high : Shape)
  | crossedBounds (side : String)
  | stated (text : String)
deriving DecidableEq

namespace RangeFault

/-- The text of a fault of a range. The side names the input or the output bounds. -/
def message : RangeFault → String
  | unrelatedBounds side low high =>
    side ++ "_low " ++ listText low ++ " and " ++ side ++ "_high " ++ listText high ++
      " are not broadcastable"
  | crossedBounds side => side ++ "_low exceeds " ++ side ++ "_high"
  | stated text => text

end RangeFault

/-- Why a pass parameter is refused. -/
inductive ParameterFault where
  | unknown
  | negative (value : Int)
  | integerExpected (found : String)
  | truthValueExpected (found : String)
  | numberExpected (found : String)
  | listedTwice
  | stated (text : String)
deriving DecidableEq

namespace ParameterFault

/-- The text of a fault of a pass parameter, whose path stands before it. -/
def message : ParameterFault → String
  | unknown => "unknown parameter"
  | negative value => "expected a non-negative integer, got " ++ toString value
  | integerExpected found => "expected an integer, got " ++ found
  | truthValueExpected found => "expected a boolean, got " ++ found
  | numberExpected found => "expected a number, got " ++ found
  | listedTwice => "pass listed more than once"
  | stated text => text

end ParameterFault

/-- Why a graph does not bear out its own bookkeeping, or why an array cannot be laid
out or stretched. -/
inductive InternalFault where
  | layout (fault : LayoutFault)
  | missingOutput (name : String)
  | missingInput (node : NodeId) (input : Nat)
  | outputOutOfRange (source : OutputRef)
  | unlistedConsumer (source : OutputRef) (consumer : Consumer)
  | foldedShape (name : String) (actual expected : Shape)
  | boundsNotStretched (side : String)
  | consumerMismatch (name : String) (slot : Nat) (listed read : List Consumer)
  | nameCount (names live : Nat)
  | unindexedName (name : String) (node : NodeId)
  | cyclic (ordered live : Nat)
  | unsettledTypes
  | stated (text : String)
deriving DecidableEq

namespace InternalFault

/-- The text of an internal fault. Those about the bookkeeping of the graph are not to
be met with in sound graphs. -/
def message : InternalFault → String
  | layout fault => fault.message
  | missingOutput name => NodeFault.quoted name ++ " has no output"
  | missingInput node input => nodeText node ++ " has no input " ++ toString input
  | outputOutOfRange source => "output " ++ source.text ++ " out of range"
  | unlistedConsumer source consumer =>
    source.text ++ " has no consumer entry for " ++ nodeText consumer.node ++ ":" ++
      toString consumer.input
  | foldedShape name actual expected =>
    "folded value of " ++ NodeFault.quoted name ++ " has shape " ++ listText actual ++
      ", expected " ++ listText expected
  | boundsNotStretched side => "broadcast of " ++ side ++ " bounds failed"
  | consumerMismatch name slot listed read =>
    "consumer set of " ++ name ++ ":" ++ toString slot ++ " is " ++
      listText (listed.map Consumer.text) ++ ", input lists say " ++
        listText (read.map Consumer.text)
  | nameCount names live =>
    "name index has " ++ toString names ++ " entries for " ++ toString live ++ " live nodes"
  | unindexedName name node =>
    "name index does not map " ++ NodeFault.quoted name ++ " to " ++ nodeText node
  | cyclic ordered live =>
    "graph has a cycle: only " ++ toString ordered ++ " of " ++ toString live ++
      " nodes can be ordered"
  | unsettledTypes => "type refresh does not settle"
  | stated text => text

end InternalFault

/-- A failed operation. -/
inductive Failure where
  | typing (node : String) (fault : TypingFault)
  | arity (node : String) (expected actual : Nat)
  | stillConsumed (node : String) (consumers : Nat)
  | levels (node : String) (count : Int)
  | range (node : String) (fault : RangeFault)
  | unknownNode (reference : String)
  | nameTaken (name : String)
  | invalidNode (fault : NodeFault)
  | invalidAttribute (node name : String) (fault : AttributeFault)
  | unknownPass (pass : String)
  | invalidParameter (pass name : String) (fault : ParameterFault)
  | orderingCycle (passes : List String)
  | passFailed (pass node : String) (source : Failure)
  | internal (fault : InternalFault)
deriving DecidableEq

namespace Failure

/-- The text of a failure, as it is reported and as it stands in diagnostics. -/
def message : Failure → String
  | typing node fault =>
    "Shape inference failed for node '" ++ node ++ "': " ++ fault.message
  | arity node expected actual =>
    "Arity mismatch replacing '" ++ node ++ "': node has " ++ toString expected ++
      " outputs, got " ++ toString actual
  | stillConsumed node consumers =>
    "Cannot remove '" ++ node ++ "': " ++ toString consumers ++
      " consumer(s) still reference its outputs"
  | levels node count =>
    "Invalid quantization levels on '" ++ node ++ "': " ++ toString count ++ " (must be >= 2)"
  | range node fault => "Invalid quantization range on '" ++ node ++ "': " ++ fault.message
  | unknownNode reference => "Node not found: " ++ reference
  | nameTaken name => "Duplicate node name: " ++ name
  | invalidNode fault => "Invalid node: " ++ fault.message
  | invalidAttribute node name fault =>
    "Invalid attribute '" ++ name ++ "' on '" ++ node ++ "': " ++ fault.message
  | unknownPass pass => "Unknown pass: " ++ pass
  | invalidParameter pass name fault =>
    "Invalid parameter '" ++ name ++ "' for pass '" ++ pass ++ "': " ++ fault.message
  | orderingCycle passes =>
    "Pass ordering hints form a cycle involving: " ++ ", ".intercalate passes
  | passFailed pass node source =>
    "Pass '" ++ pass ++ "' failed on node '" ++ node ++ "': " ++ source.message
  | internal fault => "Internal error: " ++ fault.message

/-- Only an invalid quantization range is recoverable; the same inside a failed pass
is not. -/
def isRecoverable : Failure → Bool
  | levels .. | range .. => true
  | _ => false

/-- No live node at a place. -/
def deadNode (node : NodeId) : Failure := .unknownNode (nodeText node)

end Failure

end RangeFold
