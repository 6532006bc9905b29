import RangeFold.Pass.BoundFusion
import RangeFold.Pass.ConstantFolding
import RangeFold.Pass.Scripted
import RangeFold.Proofs.Graph.Rewiring
import RangeFold.Proofs.Pipeline.Runs

/-!
# Provided passes

The passes that come with the library and the scripted ones change a graph by its edits
alone. What survives every edit, even one that fails, therefore survives each of these
passes, at whatever point it breaks off. Soundness does.
-/

namespace RangeFold

open Attempt

variable {α : Type} [Arithmetic α]

/-- The passes of this library, with any parameters, and the scripted ones. -/
inductive Pass.Provided : Pass α → Prop where
  | elimination : Provided identityElimination
  | scaling : Provided scaleFusion
  | shifting : Provided shiftFusion
  | folding (limit : Nat) : Provided (constantFolding limit)
  | scripted (script : Script) : Provided script.toPass

namespace Graph

/-- The property survives every edit, whether the edit succeeds or fails. -/
structure SurvivesEdits (property : Graph α → Prop) : Prop where
  addNode (kind : OpKind) (name : String) (inputs : List OutputRef) (attributes : Attributes α) :
    Keeps property (addNode kind name inputs attributes)
  setInput (id : NodeId) (input : Nat) (source : OutputRef) :
    Keeps property (setInput id input source)
  replaceNode (id : NodeId) (outputs : List OutputRef) : Keeps property (replaceNode id outputs)
  removeNode (id : NodeId) : Keeps property (removeNode id)
  renameNode (id : NodeId) (name : String) : Keeps property (renameNode id name)

/-- Soundness survives every public edit, so it survives whatever a pass is made of. -/
theorem sound_survives : SurvivesEdits (Sound (α := α)) where
  addNode := keeps_addNode
  setInput := keeps_setInput
  replaceNode := keeps_replaceNode
  removeNode := keeps_removeNode
  renameNode := keeps_renameNode

section Survives

variable {property : Graph α → Prop} (survives : SurvivesEdits property)

include survives

/-- What survives the edits survives an elimination, a replacement followed by a
removal. -/
theorem SurvivesEdits.eliminateNode (id : NodeId) (input : Nat) :
    Keeps property (eliminateNode id input : Attempt (Graph α) Elimination) := by
  refine keeps_bind (keeps_getNode id) fun node => ?_
  split
  · exact keeps_fail _
  · exact keeps_bind (survives.replaceNode id _) fun _ => keeps_answer _

/-- What survives the edits survives removals in a row. -/
theorem SurvivesEdits.removeEach (ids : List NodeId) :
    Keeps property (removeEach ids : Attempt (Graph α) Unit) :=
  keeps_forEach (fun id => keeps_bind (survives.removeNode id) fun _ => keeps_answer ()) ids

/-- What survives the edits survives the removal of a folded chain, however far it
gets. -/
theorem SurvivesEdits.removeChain (chain : List NodeId) :
    Keeps property (removeChain chain : Attempt (Graph α) Nat) :=
  keeps_bind (survives.removeEach chain) fun _ => keeps_answer _

/-- What survives the edits survives pruning, which removes in reverse order. -/
theorem SurvivesEdits.prune : Keeps property (prune : Attempt (Graph α) Nat) :=
  keeps_bind keeps_read fun graph => keeps_bind (survives.removeEach graph.unneeded) fun _ =>
    keeps_answer _

end Survives

/-- Pruning keeps graphs sound. -/
theorem keeps_prune : Keeps Sound (prune : Attempt (Graph α) Nat) := sound_survives.prune

end Graph

open RangeFold.Graph

section Survives

variable {property : Graph α → Prop} (survives : SurvivesEdits property)

include survives

/-- Putting a constant in the place of a range keeps what edits keep, including
where it takes the constant out again after a failure. -/
theorem keeps_installConstant (range : NodeId) (name : String) (element : ElementType)
    (value : Tensor α) (chain : List NodeId) (constant : NodeId) :
    Keeps property (installConstant range name element value chain constant) := by
  refine keeps_bind keeps_read fun graph => keeps_bind (survives.addNode _ _ _ _) fun folded => ?_
  have undo (failure : Failure) : Keeps property (do
      let _ ← removeNode folded
      Attempt.fail failure : Attempt (Graph α) Unit) :=
    keeps_bind (survives.removeNode folded) fun _ => keeps_fail failure
  exact keeps_bind (keeps_orElse (survives.replaceNode _ _) undo) fun _ =>
    keeps_bind (survives.removeEach chain) fun _ => keeps_bind (survives.removeNode constant) fun _ =>
      keeps_bind (survives.renameNode folded name) fun _ => keeps_answer folded

/-- Folding a range keeps what edits keep: up to the installation it only reads. -/
theorem keeps_foldRange (limit : Nat) (id : NodeId) :
    Progress.Keeps property (foldRange limit id : Attempt (Progress α) Bool) := by
  refine keeps_bind Progress.keeps_currentGraph fun graph => keeps_bind (keeps_lift _) fun node => ?_
  split
  · exact keeps_fail _
  · refine keeps_bind (keeps_lift _) fun range => ?_
    split
    · exact keeps_answer false
    · refine keeps_bind (keeps_lift _) fun _ => keeps_bind (keeps_lift _) fun value => ?_
      split
      · exact keeps_fail _
      · exact keeps_bind (Progress.keeps_onGraph (keeps_installConstant survives _ _ _ _ _ _)) fun _ =>
          keeps_bind (Progress.keeps_note _) fun _ => keeps_answer true

/-- Putting an edited range in place keeps what edits keep. -/
theorem keeps_installRange (site : FusionSite) (name : String) (source : OutputRef)
    (range : QuantRange α) : Keeps property (installRange site name source range) := by
  refine keeps_bind keeps_read fun graph => keeps_bind (survives.addNode _ _ _ _) fun fused => ?_
  have undo (failure : Failure) : Keeps property (do
      let _ ← removeNode fused
      Attempt.fail failure : Attempt (Graph α) Unit) :=
    keeps_bind (survives.removeNode fused) fun _ => keeps_fail failure
  refine keeps_bind (keeps_orElse (survives.replaceNode _ _) undo) fun _ =>
    keeps_bind (survives.removeNode site.range) fun _ => keeps_bind keeps_read fun graph => ?_
  split
  · exact keeps_bind (survives.removeNode site.constant) fun _ => survives.renameNode fused name
  · exact survives.renameNode fused name

/-- A fusion at a chosen site keeps what edits keep. -/
theorem keeps_fuseInto (site : FusionSite) (edit : QuantRange α → Option (QuantRange α)) :
    Keeps property (fuseInto site edit) := by
  refine keeps_bind keeps_read fun graph => keeps_bind (keeps_lift _) fun fusion => ?_
  split
  · exact keeps_answer false
  · exact keeps_bind (keeps_installRange survives _ _ _ _) fun _ => keeps_answer true

/-- The multiply fusion keeps what edits keep. -/
theorem keeps_fuseScale (id : NodeId) : Keeps property (fuseScale id : Attempt (Graph α) Bool) := by
  refine keeps_bind keeps_read fun graph => ?_
  split
  · exact keeps_answer false
  · split
    · exact keeps_answer false
    · split
      · exact keeps_fuseInto survives _ _
      · exact keeps_answer false

/-- The add fusion keeps what edits keep. -/
theorem keeps_fuseShift (id : NodeId) : Keeps property (fuseShift id : Attempt (Graph α) Bool) := by
  refine keeps_bind keeps_read fun graph => ?_
  split
  · exact keeps_answer false
  · split
    · exact keeps_answer false
    · split
      · exact keeps_fuseInto survives _ _
      · exact keeps_answer false

/-- A scripted pass keeps what edits keep, whichever edits its script asks for. -/
theorem keeps_perform (script : Script) (id : NodeId) :
    Progress.Keeps property (script.perform id : Attempt (Progress α) Bool) := by
  refine keeps_bind keeps_read fun progress => ?_
  cases script.action with
  | decline => exact keeps_answer false
  | claim => exact keeps_answer true
  | rename =>
    exact keeps_bind (Progress.keeps_onGraph (survives.renameNode _ _)) fun _ => keeps_answer true
  | remove =>
    exact keeps_bind (Progress.keeps_onGraph (survives.removeNode _)) fun _ => keeps_answer true
  | bypass =>
    exact keeps_bind (Progress.keeps_onGraph (survives.eliminateNode _ _)) fun _ => keeps_answer true
  | annotate => exact keeps_bind (Progress.keeps_note _) fun _ => keeps_answer true
  | failLevels => exact keeps_fail _
  | failRange => exact keeps_fail _
  | failInternal => exact keeps_fail _

/-- Every provided pass keeps what edits keep, also where it would not be applied.
Passes reach the graph through the public edits and in no other way. -/
theorem Pass.Provided.keeps {pass : Pass α} (provided : pass.Provided) : pass.Keeps property := by
  intro progress id holds _
  cases provided with
  | elimination =>
    exact keeps_bind (Progress.keeps_onGraph (survives.eliminateNode id 0))
      (fun _ => keeps_answer true) progress holds
  | scaling => exact Progress.keeps_onGraph (keeps_fuseScale survives id) progress holds
  | shifting => exact Progress.keeps_onGraph (keeps_fuseShift survives id) progress holds
  | folding limit => exact keeps_foldRange survives limit id progress holds
  | scripted script => exact keeps_perform survives script id progress holds

end Survives

/-- Every provided pass leaves a sound graph sound, also where it would not be
applied. Failing halfway is included. -/
theorem Pass.Provided.keeps_sound {pass : Pass α} (provided : pass.Provided) :
    pass.Keeps Sound := provided.keeps sound_survives

end RangeFold
