import RangeFold.Pass.Elimination
import RangeFold.Proofs.Meaning.Chains
import RangeFold.Proofs.Meaning.Interface
import RangeFold.Proofs.Pattern.Laying

/-!
# Folding and elimination keep the meaning

An identity node has the array of the value it reads, and a range behind which a constant
lies has the array that folding computes. Putting the one in the place of the other is
therefore invisible, and everything else that these passes do spares the interface. So
runs of pipelines made of them keep what a graph computes, bit for bit.
-/

namespace RangeFold

open Attempt

variable {α : Type}

/-- A range is read off nodes of one kind only. -/
theorem QuantRange.kind_of_ofNode {node : Node α} {range : QuantRange α}
    (read : QuantRange.ofNode node = .ok range) : node.kind = .quantizeRange := by
  unfold ofNode at read
  split at read
  · assumption
  · simp at read

/-- A range means what applying it means. No interpretation has a say in it. -/
theorem Node.denote_of_apply [Arithmetic α] {node : Node α} {range : QuantRange α}
    (read : QuantRange.ofNode node = .ok range) {value next : Tensor α}
    (applied : range.apply node.name value = .ok next) (interpretation : Interpretation α) :
    node.denote interpretation [value] = some next := by
  simp [denote, QuantRange.kind_of_ofNode read, soleValue, read, Except.bind, applied,
    Except.toOption]

namespace Graph

variable [Arithmetic α] {origin graph : Graph α} {id : NodeId} {node : Node α}

/-- A live node that is neither parameter nor result by kind was none in the
original graph, as the interface is kept with its ids. -/
theorem Preserves.inner_of_kind (preserves : Preserves origin graph)
    (found : graph.node id = some node) (inner : node.kind ≠ .parameter)
    (innerToo : node.kind ≠ .result) : ¬ origin.Exposed id := fun exposed =>
  preserves.sound.indexed.inner_of_kind found inner innerToo
    (preserves.simulates.exposed_iff.mpr exposed)

/-- An identity node has the array of the value it reads. It moves nothing and
computes nothing. -/
theorem Sound.value_identity (sound : graph.Sound) (found : graph.node id = some node)
    (kind : node.kind = .identity) {source : OutputRef} (reads : node.inputs[0]? = some source)
    (interpretation : Interpretation α) (assignment : Assignment α) :
    inputValue (graph.value interpretation assignment) source =
      graph.value interpretation assignment id := by
  have unary : node.kind.isUnary = true := by rw [kind]; rfl
  obtain ⟨sole, listed, first⟩ := sound.sole_source found unary
  obtain rfl : sole = source := by simpa [listed] using reads
  rw [sound.value_unary found unary listed first, inputValue, if_pos first]
  cases graph.value interpretation assignment sole.node <;> simp [Node.denote, kind, soleValue]

omit [Arithmetic α] in
/-- A node can be bridged if it is neither an entry nor an exit, has one output and reads a value of the
type of that. -/
theorem canEliminate_iff {input : Nat} : graph.canEliminate id input = true ↔ ∃ node source,
    graph.node id = some node ∧ (node.kind ≠ .parameter ∧ node.kind ≠ .result ∧
      node.outputs.length = 1) ∧ node.inputs[input]? = some source ∧
        graph.outputType source = node.outputType 0 := by
  unfold canEliminate
  cases graph.node id with
  | none => simp
  | some node =>
    cases reads : node.inputs[input]? <;> simp [reads, and_assoc]

/-- Where the pass that removes identity nodes admits a node, removing it is
invisible. Its readers come to read the same array one node earlier. -/
theorem Preserves.eliminateNode (preserves : Preserves origin graph)
    (admitted : (identityElimination : Pass α).admits graph id = true) :
    Preserves origin (Graph.eliminateNode id 0 graph).2 := by
  obtain ⟨matched, eliminable⟩ := Bool.and_eq_true_iff.mp admitted
  obtain ⟨node, found, kind⟩ := Pattern.kind_of_matchAt rfl matched
  obtain ⟨again, source, foundAgain, -, reads, typed⟩ := canEliminate_iff.mp eliminable
  obtain rfl : node = again := Option.some.inj (found.symm.trans foundAgain)
  have own : graph.outputType ⟨id, 0⟩ = node.outputType 0 := by simp [Graph.outputType, found]
  have getting := getNode_of_node found
  have replaced := preserves.replaceNode
    (preserves.inner_of_kind found (by simp [kind]) (by simp [kind])) (typed.trans own.symm)
    (preserves.sound.value_identity found kind reads)
  rw [Graph.eliminateNode, bind_of_ok getting]
  simp only [reads]
  exact holds_after_bind replaced fun _ => keeps_answer _

/-- The array that a range has where a constant lies behind it is the one that folding
computes. -/
theorem Sound.value_of_fold (sound : graph.Sound) (found : graph.node id = some node)
    {range : QuantRange α} (read : QuantRange.ofNode node = .ok range) {limit : Nat}
    {chain : List NodeId} {constant : NodeId}
    (source : graph.foldingSource limit id = some (chain, constant)) {value : Tensor α}
    (folded : graph.foldedValue node.name range chain constant = .ok value)
    (interpretation : Interpretation α) (assignment : Assignment α) :
    graph.value interpretation assignment id = some value := by
  have kind := QuantRange.kind_of_ofNode read
  have unary : node.kind.isUnary = true := by rw [kind]; rfl
  obtain ⟨sole, listed, first⟩ := sound.sole_source found unary
  have walked : graph.constantBehind limit sole.node = some (chain, constant) := by
    simpa [foldingSource, producer, found, listed] using source
  unfold foldedValue at folded
  cases holds : graph.constantValue constant with
  | none => simp [holds] at folded
  | some stored =>
    cases carried : graph.evaluateChain chain.reverse stored with
    | error failure => simp [holds, carried] at folded
    | ok laidOut =>
      have snapped : range.apply node.name laidOut = .ok value := by
        simpa [holds, carried] using folded
      have before := @Sound.value_of_chainTo α _ graph interpretation assignment sole.node sound
        chain constant (chainTo_of_constantBehind walked) stored laidOut holds carried
      rw [sound.value_unary found unary listed first, before]
      exact Node.denote_of_apply read snapped interpretation

end Graph

section Install

variable [Arithmetic α] {origin graph : Graph α}

/-- The attributes of a folded constant. -/
def foldedAttributes (value : Tensor α) (element : ElementType) : Attributes α :=
  (Attributes.empty.insert "value" (.tensor value)).insert "element_type" (.element element)

/-- A folded constant is typed by its own shape and the element it was folded for. -/
theorem inferOutputs_folded (name : String) (value : Tensor α) (element : ElementType) :
    inferOutputs .constant name [] (foldedAttributes value element) =
      .ok [⟨element, value.shape⟩] := rfl

/-- The node under which a folded value is installed. -/
def foldedNode (name : String) (value : Tensor α) (element : ElementType) : Node α :=
  Graph.newNode .constant name [] [⟨element, value.shape⟩] (foldedAttributes value element)

open RangeFold.Graph in
/-- An attached constant can stand for a node of the same type and array. Readers of
the node can then be moved to the constant one by one or all at once. -/
theorem Graph.Sound.attach_constant (sound : graph.Sound) {label : String} {value : Tensor α}
    {element : ElementType} (soundAfter : (graph.attach (foldedNode label value element)).Sound)
    {range : NodeId} (typed : graph.outputType ⟨range, 0⟩ = some ⟨element, value.shape⟩)
    (equal : ∀ interpretation assignment,
      graph.value interpretation assignment range = some value) :
    (graph.attach (foldedNode label value element)).outputType (.first graph.arena.length) =
        (graph.attach (foldedNode label value element)).outputType ⟨range, 0⟩ ∧
      ∀ interpretation assignment,
        inputValue ((graph.attach (foldedNode label value element)).value interpretation
          assignment) (.first graph.arena.length) =
            (graph.attach (foldedNode label value element)).value interpretation assignment
              range := by
  obtain ⟨slot, live⟩ := exists_outputSlot_of_outputType typed
  obtain ⟨node, found, _⟩ := outputSlot_eq_some_iff.mp live
  constructor
  · rw [outputType_attach live, typed, OutputRef.first, outputType_eq_map, outputSlot_attach_new]
    rfl
  · intro interpretation assignment
    have unread : ∀ source ∈ ([] : List OutputRef), ∃ slot, graph.outputSlot source = some slot :=
      fun source listed => absurd listed List.not_mem_nil
    have other : (graph.attach (foldedNode label value element)).value interpretation assignment
        range = graph.value interpretation assignment range :=
      sound.value_attach soundAfter unread (ne_of_node found)
    rw [other, equal interpretation assignment, OutputRef.first, inputValue, if_pos rfl]
    exact soundAfter.value_constant (node_attach_new graph _) rfl

open RangeFold.Graph in
/-- Putting a constant in the place of a range that has the same array and type, and
removing the chain behind the range, is invisible. -/
theorem Graph.Preserves.installConstant (preserves : Preserves origin graph) {range : NodeId}
    {element : ElementType} {value : Tensor α} {chain : List NodeId} {constant : NodeId}
    (inner : ¬ origin.Exposed range)
    (innerChain : ∀ place, place ∈ constant :: chain → ¬ origin.Exposed place)
    (typed : graph.outputType ⟨range, 0⟩ = some ⟨element, value.shape⟩)
    (equal : ∀ interpretation assignment,
      graph.value interpretation assignment range = some value) (name : String) :
    Preserves origin (RangeFold.installConstant range name element value chain constant graph).2 := by
  let label := graph.uniqueName (name ++ "_folded")
  have adding : Preserves origin
      (addNode .constant label [] (foldedAttributes value element) graph).2 :=
    preserves_addNode (by decide) (by decide) _ _ _ graph preserves
  show Preserves origin ((addNode .constant label [] (foldedAttributes value element) >>= _)
    graph).2
  rcases addNode_cases graph .constant label [] (foldedAttributes value element) with
    ⟨failure, failed⟩ | ⟨inputTypes, outputTypes, free, known, inferred, added⟩
  · rw [bind_of_error failed]
    exact preserves
  · obtain rfl : inputTypes = [] := (List.map_eq_nil_iff.mp known.symm)
    obtain rfl : [⟨element, value.shape⟩] = outputTypes :=
      Except.ok.inj ((inferOutputs_folded label value element).symm.trans inferred)
    rw [bind_of_ok added]
    have attached : Preserves origin (graph.attach (foldedNode label value element)) := by
      rw [added] at adding
      exact adding
    have fresh : ¬ origin.Exposed graph.arena.length := preserves.fresh_inner
    obtain ⟨typedNew, equalNew⟩ := preserves.sound.attach_constant attached.sound typed equal
    have replacing := attached.replaceNode inner typedNew equalNew
    have undo (failure : Failure) : Keeps (Preserves origin) (do
        let _ ← removeNode graph.arena.length
        Attempt.fail failure : Attempt (Graph α) Unit) :=
      keeps_bind (preserves_removeNode fresh) fun _ => keeps_fail failure
    refine holds_after_bind (holds_after_orElse replacing undo) fun _ => ?_
    refine keeps_bind (preserves_removeEach fun place listed =>
      innerChain place (List.mem_cons_of_mem _ listed)) fun _ => ?_
    refine keeps_bind (preserves_removeNode (innerChain constant List.mem_cons_self)) fun _ => ?_
    exact keeps_bind (preserves_renameNode fresh name) fun _ => keeps_answer _

end Install

section Passes

open RangeFold.Graph

variable [Arithmetic α] {origin : Graph α}

/-- Folding a range is invisible, whether it succeeds, declines or fails. The
constant is attached first, the readers move next and the chain goes last; each of
these steps is invisible by itself. -/
theorem preserves_foldRange (limit : Nat) (id : NodeId) :
    Progress.Keeps (Preserves origin) (foldRange limit id : Attempt (Progress α) Bool) := by
  intro progress preserves
  rw [foldRange, Progress.currentGraph_bind]
  refine Progress.holds_after_lift preserves fun node found => ?_
  have live := nodeAt_eq_ok_iff.mp found
  cases typed : node.outputType 0 with
  | none => exact preserves
  | some type =>
    refine Progress.holds_after_lift preserves fun range read => ?_
    cases source : progress.graph.foldingSource limit id with
    | none => exact preserves
    | some walked =>
      obtain ⟨chain, constant⟩ := walked
      refine Progress.holds_after_lift preserves fun _ _ => ?_
      refine Progress.holds_after_lift preserves fun value folded => ?_
      split
      · exact preserves
      · rename_i shaped
        have kind := QuantRange.kind_of_ofNode read
        obtain ⟨start, _, walked⟩ := Option.bind_eq_some_iff.mp source
        have kinds := (chainTo_of_constantBehind walked).kinds
        have own : progress.graph.outputType ⟨id, 0⟩ = some ⟨type.element, value.shape⟩ := by
          rw [Decidable.not_not] at shaped
          rw [shaped]
          simpa [Graph.outputType, live] using typed
        have installed := preserves.installConstant
          (preserves.inner_of_kind live (by simp [kind]) (by simp [kind]))
          (fun place listed => by
            obtain ⟨other, found, inner, innerToo⟩ := kinds place listed
            exact preserves.inner_of_kind found inner innerToo)
          own (preserves.sound.value_of_fold live read source folded) node.name
        exact Progress.holds_after_bind installed fun _ =>
          keeps_bind (Progress.keeps_note _) fun _ => keeps_answer true

/-- The passes that fold ranges into constants and remove identity nodes. -/
inductive Pass.Silent : Pass α → Prop where
  | elimination : Silent identityElimination
  | folding (limit : Nat) : Silent (constantFolding limit)

/-- A silent pass keeps the graph one that may stand for the original, whatever else
it does. -/
theorem Pass.Silent.preserves {pass : Pass α} (silent : pass.Silent) :
    pass.Keeps (Preserves origin) := by
  intro progress id preserves admitted
  cases silent with
  | elimination =>
    exact Progress.holds_after_bind (preserves.eliminateNode admitted) fun _ => keeps_answer true
  | folding limit => exact preserves_foldRange limit id progress preserves

/-- A run of a pipeline of such passes on a graph of any session leaves a graph that may
stand for it: the entries and exits have kept their places, names and types, and at every
exit is the array that was there before, or none if there was none. -/
theorem run_simulates {graph : Graph α} (reachable : graph.Reachable) (pipeline : Pipeline α)
    (silent : ∀ planned ∈ pipeline.passes, planned.pass.Silent) (journal : Journal) :
    graph.Simulates (pipeline.runFrom ⟨graph, journal⟩).2.graph := by
  have preserved := Pipeline.keeps_runFrom (fun planned listed => (silent planned listed).preserves)
    preserves_prune ⟨graph, journal⟩ ⟨reachable.sound, Simulates.refl graph⟩
  exact preserved.simulates

end Passes

/-- A constant that is read by a range, an identity node and an exit, in this order. -/
def foldableSession : List (Call Rat) :=
  [.add .constant "w" [] (Attributes.empty.insert "value" (.tensor (Tensor.vector [0, 1]))),
    .add .quantizeRange "q" [⟨0, 0⟩]
      (QuantRange.toAttributes ⟨.scalar 0, .scalar 1, .scalar 0, .scalar 1, 2⟩),
    .add .identity "i" [⟨1, 0⟩] Attributes.empty,
    .add .result "r" [⟨2, 0⟩] Attributes.empty]

/-- Both passes at their usual priorities. -/
def foldingPipeline : Pipeline Rat :=
  (Pipeline.empty.withPass identityElimination).withPass (constantFolding defaultChainLimit)

/-- The run folds the range and removes the identity node; the exit is left with the
folded constant and has the array it had. -/
theorem foldableSession_simulated :
    (∀ planned ∈ foldingPipeline.passes, planned.pass.Silent) ∧
      (foldingPipeline.runFrom
        ⟨Call.performAll foldableSession Graph.empty, Journal.fresh⟩).2.graph.live = 2 ∧
      (Call.performAll foldableSession Graph.empty).Simulates
        (foldingPipeline.runFrom
          ⟨Call.performAll foldableSession Graph.empty, Journal.fresh⟩).2.graph := by
  have silent : ∀ planned ∈ foldingPipeline.passes, planned.pass.Silent := by
    intro planned listed
    rcases List.mem_cons.mp listed with rfl | listed
    · exact .elimination
    · rw [List.mem_singleton.mp listed]
      exact .folding defaultChainLimit
  exact ⟨silent, by decide +kernel,
    run_simulates ⟨foldableSession, rfl⟩ foldingPipeline silent Journal.fresh⟩

end RangeFold
