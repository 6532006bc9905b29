import RangeFold.Pipeline.Parameters
import RangeFold.Pipeline.Registry
import RangeFold.Pipeline.Run
import RangeFold.Text.Json

/-!
# Settings

The written settings of a pipeline: its options and the passes it is made of. They
are read from JSON, where whatever is not given has a default, and built into a
pipeline with the passes of a registry. A pass that is switched off must still be
registered and still counts as listed, but its parameters are not looked at.
-/

namespace RangeFold

variable {α : Type}

/-- What settings say of one pass. -/
structure PassSettings where
  id : String
  enabled : Bool
  priority : Option Int
  parameters : ParameterMap
deriving DecidableEq

/-- What settings say of a pipeline: how it runs and which passes it has. -/
structure PipelineSettings where
  maxSweeps : Nat
  prunes : Bool
  checks : Bool
  passes : List PassSettings
deriving DecidableEq

namespace PassSettings

/-- A pass that is switched on, with nothing else stated. -/
def plain (id : String) : PassSettings := ⟨id, true, none, []⟩

end PassSettings

namespace PipelineSettings

/-- The options of a pipeline for which none are stated, without passes. -/
def standard : PipelineSettings := ⟨defaultMaxSweeps, true, false, []⟩

/-- Every pass of a registry with the standard options. -/
def allPasses (registry : Registry α) : PipelineSettings :=
  { standard with passes := registry.ids.map PassSettings.plain }

end PipelineSettings

namespace SettingsReader

/-- A truth value. -/
def truth : Json → Option Bool
  | .truth value => some value
  | _ => none

/-- A text, if its glyphs can be read. -/
def text : Json → Option String
  | .text content => content
  | _ => none

/-- An integer, as far as the literal is one. -/
def integer : Json → Option Int
  | .number literal =>
    match literal.value with
    | some (.integer value) => some value
    | _ => none
  | _ => none

/-- A count, as wide as an unsigned 64-bit word. -/
def natural (json : Json) : Option Nat :=
  (integer json).bind fun value => if value < 0 then none else some value.toNat

/-- A priority is a signed 32-bit word, or null for none. -/
def priority : Json → Option (Option Int)
  | .null => some none
  | json =>
    (integer json).bind fun value =>
      if -2147483648 ≤ value ∧ value ≤ 2147483647 then some (some value) else none

/-- A value that may be left out. -/
def optional {β : Type} (read : Json → Option β) (default : β) : Option Json → Option β
  | none => some default
  | some json => read json

/-- A scalar. An integer beyond the signed 64-bit words becomes a double. -/
def parameter : Json → Option ParameterValue
  | .truth value => some (.truth value)
  | .text content => content.map ParameterValue.text
  | .number literal =>
    literal.value.map fun
      | .integer value =>
        if value ≤ 9223372036854775807 then .int value else .real (Binary.ofInt value)
      | .real value => .real value
  | _ => none

/-- One parameter, if its name and its value can be read. -/
def namedParameter : Option String × Json → Option (String × ParameterValue)
  | (some name, json) => (parameter json).map fun value => (name, value)
  | (none, _) => none

/-- Scalars by name; of a repeated name the last value counts. -/
def parameters : Json → Option ParameterMap
  | .object fields => (fields.mapM namedParameter).map ParameterMap.ofList
  | _ => none

/-- A pass has at least a name. -/
def pass (json : Json) : Option PassSettings :=
  match json.record ["id", "enabled", "priority", "params"] with
  | some [some id, enabledField, priorityField, parametersField] => do
    let id ← text id
    let enabled ← optional truth true enabledField
    let priority ← optional priority none priorityField
    let parameters ← optional parameters [] parametersField
    return ⟨id, enabled, priority, parameters⟩
  | _ => none

/-- A list of passes, each of which has to be readable. -/
def passes : Json → Option (List PassSettings)
  | .list items => items.mapM pass
  | _ => none

/-- The settings of a pipeline. -/
def pipeline (json : Json) : Option PipelineSettings :=
  match json.record ["max_sweeps", "prune_dead_nodes", "validate_after_rewrite", "passes"] with
  | some [sweepsField, prunesField, checksField, passesField] => do
    let maxSweeps ← optional natural PipelineSettings.standard.maxSweeps sweepsField
    let prunes ← optional truth PipelineSettings.standard.prunes prunesField
    let checks ← optional truth PipelineSettings.standard.checks checksField
    let passes ← optional passes [] passesField
    return ⟨maxSweeps, prunes, checks, passes⟩
  | _ => none

end SettingsReader

/-- Read the settings of a pipeline from JSON. -/
def PipelineSettings.read (source : String) : Option PipelineSettings :=
  (Json.read source).bind SettingsReader.pipeline

/-- Read parameters from JSON. -/
def ParameterMap.read (source : String) : Option ParameterMap :=
  (Json.read source).bind SettingsReader.parameters

namespace Pipeline

/-- Add the passes of a list of settings, of which some have been listed before. The
first entry that offends is reported. -/
def addListed (registry : Registry α) (listed : List String) (pipeline : Pipeline α) :
    List PassSettings → Except Failure (Pipeline α)
  | [] => .ok pipeline
  | settings :: rest =>
    if !registry.contains settings.id then .error (.unknownPass settings.id)
    else if listed.contains settings.id then
      .error (.invalidParameter settings.id "id" .listedTwice)
    else if !settings.enabled then addListed registry (settings.id :: listed) pipeline rest
    else do
      let pass ← registry.create settings.id ⟨settings.id, settings.parameters⟩
      addListed registry (settings.id :: listed)
        (pipeline.withPassAt pass (settings.priority.getD pass.priority)) rest

/-- Build a pipeline. Hints in a circle are refused here and not only when it runs. -/
def ofSettings (registry : Registry α) (settings : PipelineSettings) :
    Except Failure (Pipeline α) := do
  let start := ((Pipeline.empty.withMaxSweeps settings.maxSweeps).withPruning
    settings.prunes).withChecks settings.checks
  let pipeline ← addListed registry [] start settings.passes
  let _ ← pipeline.passOrder
  return pipeline

/-- All passes of this library at their usual priorities. -/
def builtin [Arithmetic α] : Except Failure (Pipeline α) :=
  ofSettings Registry.builtin (PipelineSettings.allPasses (Registry.builtin (α := α)))

end Pipeline

end RangeFold
