import RangeFold.Pipeline.Parameters
import RangeFold.Pass.BoundFusion
import RangeFold.Pass.ConstantFolding
import RangeFold.Pass.Elimination
import RangeFold.Text.Quoted

/-!
# Registries

A registry knows under which names passes can be had and how each is made from its
parameters. A name can be registered again, which replaces the maker and keeps the
name's place. The name that a pass is registered under need not be its own.
-/

namespace RangeFold

variable {α : Type}

/-- How a pass is made from parameters. -/
abbrev PassMaker (α : Type) := Parameters → Except Failure (Pass α)

/-- The makers of passes, by name. A name that is registered again means the later
maker. -/
structure Registry (α : Type) where
  makers : List (String × PassMaker α)

namespace Registry

/-- A registry without makers. -/
def empty : Registry α := ⟨[]⟩

/-- Set the maker of a name in a list, at its old place if it has one. -/
def registerIn (id : String) (maker : PassMaker α) :
    List (String × PassMaker α) → List (String × PassMaker α)
  | [] => [(id, maker)]
  | (key, old) :: rest =>
    if key = id then (id, maker) :: rest else (key, old) :: registerIn id maker rest

/-- Register a maker under a name. -/
def register (registry : Registry α) (id : String) (maker : PassMaker α) : Registry α :=
  ⟨registerIn id maker registry.makers⟩

/-- The registered names, in the order in which they were first registered. -/
def ids (registry : Registry α) : List String := registry.makers.map Prod.fst

/-- The name has a maker. -/
def contains (registry : Registry α) (id : String) : Bool := (registry.makers.lookup id).isSome

/-- Make the pass of a name. -/
def create (registry : Registry α) (id : String) (parameters : Parameters) :
    Except Failure (Pass α) :=
  match registry.makers.lookup id with
  | some maker => maker parameters
  | none => .error (.unknownPass id)

/-- The written form of a registry, for logs. -/
def description (registry : Registry α) : String :=
  "PassRegistry \x7b passes: [" ++ ", ".intercalate (registry.ids.map quoted) ++ "] \x7d"

end Registry

/-- The maker of a pass that takes no parameters. -/
def makePlain (pass : Pass α) : PassMaker α := fun parameters => do
  parameters.checkKnown []
  return pass

/-- Constant folding takes the length of the chains it crosses. -/
def makeConstantFolding [Arithmetic α] : PassMaker α := fun parameters => do
  parameters.checkKnown ["max_chain_length"]
  let limit ← parameters.natural "max_chain_length" defaultChainLimit
  return constantFolding limit

/-- The passes of this library under their own names. -/
def Registry.builtin [Arithmetic α] : Registry α :=
  (((Registry.empty.register "eliminate_identity" (makePlain identityElimination)).register
    "fuse_multiply_to_quantization_range" (makePlain scaleFusion)).register
      "fuse_add_to_quantization_range" (makePlain shiftFusion)).register
        "fuse_quantization_range" makeConstantFolding

end RangeFold
