import RangeFold.Proofs.Pass.Builtin

/-!
# Passes on a part of a graph

Pruning leaves a part of a graph: nodes of the graph that may have lost readers. What a builtin
pass finds at a node depends on the node and on the nodes that it reads, and on their readers
only in that ranges, constants and layout operations must have a single one. So where a pass acts
in a part it acts in the whole graph, unless the part relieves one of them of its other readers:
either it finds nothing in the part, or it finds the same in the whole graph.
-/

namespace RangeFold

open Attempt

variable {α : Type}

namespace Graph

/-- The nodes of a part are nodes of the whole graph with other readers at most. -/
def Part (part whole : Graph α) : Prop :=
  ∀ id node, part.node id = some node →
    ∃ old change, whole.node id = some old ∧ old.relist change id = node

/-- What is left when nodes are cleared away is a part. -/
theorem part_cleared (graph : Graph α) (ids : List NodeId) : (graph.cleared ids).Part graph := by
  intro id node found
  rw [node_cleared] at found
  split at found
  · cases found
  · obtain ⟨old, foundOld, same⟩ := Option.map_eq_some_iff.mp found
    exact ⟨old, _, foundOld, same⟩

/-- A range, a constant or a layout operation of the part has a single reader there and more in
the whole graph. -/
def Relieved (part whole : Graph α) (id : NodeId) : Prop :=
  (∃ kind, part.kindAt id = some kind ∧
    (kind = .quantizeRange ∨ kind = .constant ∨ kind.isLayout = true)) ∧
  part.isSingleUse id = true ∧ whole.isSingleUse id = false

/-- Without such a node, single readers in the part are single readers in the whole graph. -/
theorem isSingleUse_of_kept {part whole : Graph α} (kept : ∀ place, ¬ part.Relieved whole place)
    {id : NodeId} {kind : OpKind} (own : part.kindAt id = some kind)
    (taken : kind = .quantizeRange ∨ kind = .constant ∨ kind.isLayout = true)
    (single : part.isSingleUse id = true) : whole.isSingleUse id = true := by
  by_contra more
  exact kept id ⟨⟨kind, own, taken⟩, single, Bool.eq_false_iff.mpr more⟩

section Queries

variable {part whole : Graph α} (within : part.Part whole) {id : NodeId}

include within

/-- A part has the kinds of the whole. -/
theorem Part.kindAt {kind : OpKind} (own : part.kindAt id = some kind) :
    whole.kindAt id = some kind := by
  obtain ⟨node, found, rfl⟩ := kindAt_eq_some_iff.mp own
  obtain ⟨old, change, foundOld, rfl⟩ := within id node found
  exact kindAt_eq_some_iff.mpr ⟨old, foundOld, rfl⟩

/-- A part has the types of the whole. -/
theorem Part.outputType {source : OutputRef} {type : TensorType}
    (typed : part.outputType source = some type) : whole.outputType source = some type := by
  obtain ⟨node, found, own⟩ := Option.bind_eq_some_iff.mp typed
  obtain ⟨old, change, foundOld, rfl⟩ := within source.node node found
  rw [Node.outputType_eq, Node.relist_outputTypes, ← Node.outputType_eq] at own
  exact Option.bind_eq_some_iff.mpr ⟨old, foundOld, own⟩

/-- What feeds a node in a part feeds it in the whole, because the inputs of a node
are its own. -/
theorem Part.producer {input : Nat} {source : NodeId} (fed : part.producer id input = some source) :
    whole.producer id input = some source := by
  obtain ⟨read, reads, rfl⟩ := Option.map_eq_some_iff.mp fed
  obtain ⟨node, found, listed⟩ := Option.bind_eq_some_iff.mp reads
  obtain ⟨old, change, foundOld, rfl⟩ := within id node found
  simp [Graph.producer, foundOld, show old.inputs[input]? = some read from listed]

/-- A constant of a part has the same value in the whole. -/
theorem Part.constantValue {value : Tensor α} (holds : part.constantValue id = some value) :
    whole.constantValue id = some value := by
  obtain ⟨node, found, own⟩ := Option.bind_eq_some_iff.mp holds
  obtain ⟨old, change, foundOld, rfl⟩ := within id node found
  exact Option.bind_eq_some_iff.mpr ⟨old, foundOld, own⟩

/-- A node that reads two kinds in a part does so in the whole. -/
theorem Part.readsKinds {first second : OpKind} {left right : NodeId}
    (reads : part.ReadsKinds id first second left right) :
    whole.ReadsKinds id first second left right := by
  obtain ⟨node, readsLeft, readsRight, rest, found, inputs, here, there, onLeft, onRight⟩ := reads
  obtain ⟨old, change, foundOld, rfl⟩ := within id node found
  exact ⟨old, readsLeft, readsRight, rest, foundOld, inputs, here, there, within.kindAt onLeft,
    within.kindAt onRight⟩

/-- A site chosen in a part is the one chosen in the whole. The search stops at the
first that suits, and both look at the same inputs in the same order. -/
theorem Part.fusionSite {commutative : Bool} {site : FusionSite}
    (chosen : part.fusionSite id commutative = some site) :
    whole.fusionSite id commutative = some site := by
  obtain ⟨operation, placed⟩ := fusionSite_eq_some_iff.mp chosen
  exact fusionSite_eq_some_iff.mpr ⟨operation, placed.imp within.readsKinds fun ⟨commutes, reads⟩ =>
    ⟨commutes, within.readsKinds reads⟩⟩

/-- The site of an addition or subtraction is chosen in the whole as in the part,
with the same sign. -/
theorem Part.shiftSite [Arithmetic α] {signed : FusionSite × (Tensor α → Tensor α)}
    (chosen : shiftSite part id = some signed) : shiftSite whole id = some signed := by
  obtain ⟨node, found, rest⟩ := Option.bind_eq_some_iff.mp chosen
  obtain ⟨old, change, foundOld, rfl⟩ := within id node found
  refine Option.bind_eq_some_iff.mpr ⟨old, foundOld, ?_⟩
  rw [Node.relist_kind] at rest
  split at rest
  · obtain ⟨site, here, same⟩ := Option.map_eq_some_iff.mp rest
    exact Option.map_eq_some_iff.mpr ⟨site, within.fusionSite here, same⟩
  · obtain ⟨site, here, same⟩ := Option.map_eq_some_iff.mp rest
    exact Option.map_eq_some_iff.mpr ⟨site, within.fusionSite here, same⟩
  · cases rest

/-- The walk that finds a constant in the part finds it in the whole graph. A node
that is relieved may have had readers that stopped the walk, so none on it may be. -/
theorem Part.constantBehind (kept : ∀ place, ¬ part.Relieved whole place) {limit : Nat}
    {way : List NodeId × NodeId} (walked : part.constantBehind limit id = some way) :
    whole.constantBehind limit id = some way := by
  fun_induction Graph.constantBehind part limit id generalizing way with
  | case1 | case2 | case4 | case5 | case6 => simp at walked
  | case3 limit id node found single kind =>
    have own := kindAt_eq_some_iff.mpr ⟨node, found, kind⟩
    have alone := isSingleUse_of_kept kept own (.inr (.inl rfl)) (by simpa using single)
    obtain ⟨old, change, foundOld, rfl⟩ := within id node found
    rw [Graph.constantBehind.eq_def]
    simpa [foundOld, alone, show old.kind = .constant from kind] using walked
  | case7 id node found single other layout limit source fed inductionHypothesis =>
    have own := kindAt_eq_some_iff.mpr ⟨node, found, rfl⟩
    have alone :=
      isSingleUse_of_kept kept own (.inr (.inr (by simpa using layout))) (by simpa using single)
    obtain ⟨old, change, foundOld, rfl⟩ := within id node found
    obtain ⟨tail, behind, rfl⟩ := Option.map_eq_some_iff.mp walked
    rw [Node.relist_kind] at other layout
    rw [Graph.constantBehind.eq_def]
    simp [foundOld, alone, other, layout, within.producer fed, inductionHypothesis behind]

end Queries

variable [Arithmetic α] {part whole : Graph α} (within : part.Part whole) {id : NodeId}

include within

/-- A scaling offered in a part is offered in the whole. -/
theorem Part.scaleEdit {edit : FusionEdit α} (offered : scaleEdit part id = some edit) :
    scaleEdit whole id = some edit := by
  obtain ⟨site, chosen, rest⟩ := Option.bind_eq_some_iff.mp offered
  obtain ⟨scale, holds, rest⟩ := Option.bind_eq_some_iff.mp rest
  exact Option.bind_eq_some_iff.mpr ⟨site, within.fusionSite chosen,
    Option.bind_eq_some_iff.mpr ⟨scale, within.constantValue holds, rest⟩⟩

/-- A shift offered in a part is offered in the whole. -/
theorem Part.shiftEdit {edit : FusionEdit α} (offered : shiftEdit part id = some edit) :
    shiftEdit whole id = some edit := by
  obtain ⟨signed, chosen, rest⟩ := Option.bind_eq_some_iff.mp offered
  obtain ⟨shift, holds, rest⟩ := Option.bind_eq_some_iff.mp rest
  exact Option.bind_eq_some_iff.mpr ⟨signed, within.shiftSite chosen,
    Option.bind_eq_some_iff.mpr ⟨shift, within.constantValue holds, rest⟩⟩

/-- Operations that are in the part are carried out there as in the whole graph.
Evaluation looks at kinds, attributes and types, which are the same. -/
theorem Part.evaluateChain_eq {chain : List NodeId}
    (live : ∀ place ∈ chain, ∃ node, part.node place = some node) (value : Tensor α) :
    whole.evaluateChain chain value = part.evaluateChain chain value := by
  induction chain generalizing value with
  | nil => rfl
  | cons place rest inductionHypothesis =>
    obtain ⟨⟨node, found⟩, liveRest⟩ := List.forall_mem_cons.mp live
    obtain ⟨old, change, foundOld, rfl⟩ := within place node found
    have same : (old.relist change place).evaluate value = old.evaluate value := by
      simp only [Node.evaluate, Node.outputType_eq, Node.relist_outputTypes]
      rfl
    rw [Graph.evaluateChain, Graph.evaluateChain, nodeAt_of_node foundOld, nodeAt_of_node found,
      ok_bind, ok_bind, same]
    exact bind_congr fun next => inductionHypothesis liveRest next

/-- So what lies behind a range in the part comes to the same in the whole graph.
The constant holds the same tensor, too. -/
theorem Part.foldedValue_eq {source : NodeId} {chain : List NodeId} {constant : NodeId}
    (soundPart : part.Sound) (leads : part.ChainTo source chain constant) (name : String)
    (range : QuantRange α) :
    whole.foldedValue name range chain constant = part.foldedValue name range chain constant := by
  obtain ⟨stored, _, holds, -⟩ := leads.evaluate soundPart
  have live : ∀ place ∈ chain.reverse, ∃ node, part.node place = some node := by
    intro place among
    obtain ⟨node, found, -⟩ :=
      leads.kinds place (List.mem_cons_of_mem _ (List.mem_reverse.mp among))
    exact ⟨node, found⟩
  simp only [Graph.foldedValue, holds, within.constantValue holds, within.evaluateChain_eq live]

section Readers

variable (kept : ∀ place, ¬ part.Relieved whole place)

include kept

/-- A fusion finds nothing to offer in the part, or it finds the same in the whole
graph. If it offers a range, that range has a single reader in the part
and, as no node is relieved, in the whole graph too. -/
theorem Part.fusedRange_eq {site : FusionSite} (fuses : part.Fuses site) (soundPart : part.Sound)
    (fusesWhole : whole.Fuses site) (sound : whole.Sound)
    (edit : QuantRange α → Option (QuantRange α)) :
    fusedRange part site edit = .ok none ∨
      fusedRange whole site edit = fusedRange part site edit := by
  obtain ⟨range, foundRange, -⟩ := kindAt_eq_some_iff.mp fuses.range
  obtain ⟨_, _, operation, foundOperation, -⟩ := fuses.readsRange
  obtain ⟨oldRange, change, foundOld, rfl⟩ := within site.range range foundRange
  obtain ⟨oldOperation, changeToo, foundToo, rfl⟩ := within site.operation operation foundOperation
  obtain ⟨source, input, states, inputs, known, -, stated, -, inPart⟩ :=
    fuses.fusedRange_eq soundPart foundRange foundOperation
  obtain ⟨sourceToo, inputToo, statesToo, inputsToo, knownToo, -, statedToo, -, inWhole⟩ :=
    fusesWhole.fusedRange_eq sound foundOld foundToo
  obtain rfl : source = sourceToo := List.singleton_inj.mp (inputs.symm.trans inputsToo)
  obtain rfl : input = inputToo :=
    Option.some.inj ((within.outputType known).symm.trans knownToo)
  obtain rfl : states = statesToo := Except.ok.inj (stated.symm.trans statedToo)
  rw [inPart, inWhole]
  simp only [Node.outputType_eq, Node.relist_outputTypes, Node.relist_name]
  by_cases single : part.isSingleUse site.range = true
  · have alone := isSingleUse_of_kept kept fuses.range (.inl rfl) single
    simp [single, alone]
  · simp [single]

/-- A folding finds nothing to fold in the part, or it finds the same in the whole
graph. A way to a constant in the part is one in the whole graph, since no node
on it is relieved. -/
theorem Part.foldPlan_eq (soundPart : part.Sound) (limit : Nat)
    (kind : part.kindAt id = some .quantizeRange) :
    foldPlan part limit id = .ok none ∨ foldPlan whole limit id = foldPlan part limit id := by
  obtain ⟨node, found, own⟩ := kindAt_eq_some_iff.mp kind
  cases walked : part.foldingSource limit id with
  | none =>
    obtain ⟨_, _, -, -, -, ⟨-, none⟩ | ⟨chain, constant, _, some, -⟩⟩ :=
      soundPart.foldPlan_of_range limit found own
    · exact .inl none
    · cases walked.symm.trans some
  | some way =>
    right
    obtain ⟨chain, constant⟩ := way
    obtain ⟨source, fed, behind⟩ := Option.bind_eq_some_iff.mp walked
    have walkedToo : whole.foldingSource limit id = some (chain, constant) :=
      Option.bind_eq_some_iff.mpr
        ⟨source, within.producer fed, within.constantBehind kept behind⟩
    have folds := within.foldedValue_eq soundPart (chainTo_of_constantBehind behind)
    obtain ⟨old, change, foundOld, rfl⟩ := within id node found
    have same : QuantRange.ofNode (old.relist change id) = QuantRange.ofNode old := rfl
    simp only [RangeFold.foldPlan, nodeAt_of_node found, nodeAt_of_node foundOld, ok_bind, walked,
      walkedToo, folds, same, Node.outputType_eq, Node.relist_outputTypes, Node.relist_name]

/-- A fusion that acts in the part acts in the whole graph, if its edits carry over.
This takes care of both fusions at once. -/
theorem Part.fusion_acts {edit : Graph α → NodeId → Option (FusionEdit α)} (proper : Proper edit)
    {pass : Pass α} (reliable : pass.Reliable)
    (applies : ∀ id, pass.apply id = Progress.onGraph (fuseBy edit id))
    (soundPart : part.Sound) (sound : whole.Sound)
    (carries : ∀ chosen, edit part id = some chosen → edit whole id = some chosen)
    (admitted : pass.admits whole id = true) (acts : pass.Acts part id) :
    pass.Acts whole id := by
  have answers (graph : Graph α) :
      (pass.apply id ⟨graph, Journal.fresh⟩).1 = (fuseBy edit id graph).1 := by
    rw [applies, Progress.onGraph_apply]
  obtain ⟨-, acting⟩ := (reliable.acts_iff ⟨part, Journal.fresh⟩ id).mp acts
  refine (reliable.acts_iff ⟨whole, Journal.fresh⟩ id).mpr ⟨admitted, ?_⟩
  rw [answers] at acting ⊢
  cases offered : edit part id with
  | none => simp [fuseBy, offered, Pass.Acting] at acting
  | some chosen =>
    have offeredToo := carries chosen offered
    obtain ⟨-, fuses, -⟩ := proper part id chosen.1 chosen.2 offered
    obtain ⟨-, fusesToo, -⟩ := proper whole id chosen.1 chosen.2 offeredToo
    rw [proper.answer_fuseBy soundPart offered] at acting
    rw [proper.answer_fuseBy sound offeredToo]
    rcases within.fusedRange_eq kept fuses soundPart fusesToo sound chosen.2 with none | same
    · simp [none, Except.map, Pass.Acting] at acting
    · rwa [same]

/-- Where a builtin pass acts in the part it acts in the whole graph. Passes that
come to rest on the whole graph therefore rest on every part of it. -/
theorem Part.acts (soundPart : part.Sound) (sound : whole.Sound) {pass : Pass α}
    (builtin : pass.Builtin) (acts : pass.Acts part id) : pass.Acts whole id := by
  have reliable := builtin.reliable
  obtain ⟨admitted, acting⟩ := (reliable.acts_iff ⟨part, Journal.fresh⟩ id).mp acts
  cases builtin with
  | elimination =>
    obtain ⟨node, found, kind⟩ := identity_of_admits admitted
    obtain ⟨old, foundOld, same⟩ :=
      kindAt_eq_some_iff.mp (within.kindAt (kindAt_eq_some_iff.mpr ⟨node, found, kind⟩))
    exact .inl (sound.identityElimination_changes foundOld same)
  | scaling =>
    obtain ⟨node, site, found, kind, chosen⟩ := multiplication_of_admits admitted
    obtain ⟨old, foundOld, same⟩ :=
      kindAt_eq_some_iff.mp (within.kindAt (kindAt_eq_some_iff.mpr ⟨node, found, kind⟩))
    have admittedToo : (scaleFusion : Pass α).admits whole id = true := by
      simp [scaleFusion, foundOld, same, within.fusionSite chosen]
    exact within.fusion_acts kept scaleEdit_proper reliable scaleFusion_apply soundPart sound
      (fun _ => within.scaleEdit) admittedToo acts
  | shifting =>
    obtain ⟨signed, chosen⟩ := Option.isSome_iff_exists.mp admitted
    have admittedToo : (shiftFusion : Pass α).admits whole id = true :=
      Option.isSome_iff_exists.mpr ⟨signed, within.shiftSite chosen⟩
    exact within.fusion_acts kept shiftEdit_proper reliable shiftFusion_apply soundPart sound
      (fun _ => within.shiftEdit) admittedToo acts
  | folding limit =>
    have kind := range_of_admits admitted
    have answers {graph : Graph α} (sound : graph.Sound) :
        ((constantFolding limit).apply id ⟨graph, Journal.fresh⟩).1 =
          (RangeFold.foldPlan graph limit id).map Option.isSome :=
      @foldRange_answers_plan α _ ⟨graph, Journal.fresh⟩ sound limit id
    refine (reliable.acts_iff ⟨whole, Journal.fresh⟩ id).mpr
      ⟨sound.admits_range (within.kindAt kind), ?_⟩
    rw [answers soundPart] at acting
    rw [answers sound]
    rcases within.foldPlan_eq kept soundPart limit kind with none | same
    · simp [none, Except.map, Pass.Acting] at acting
    · rwa [same]

end Readers

end Graph

end RangeFold
