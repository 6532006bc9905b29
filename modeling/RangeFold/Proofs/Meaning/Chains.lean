import RangeFold.Pass.ConstantFolding
import RangeFold.Proofs.Meaning.Edits

/-!
# Values of chains

What a fold computes at compile time is what the graph would compute: a constant has its
stored array, a layout operation makes of one array what carrying it out makes of it, and
so a chain of layout operations on a constant has the array that carrying them out one
after the other yields. The range at the end of the chain snaps that array.
-/

namespace RangeFold

variable {α : Type}

/-- The kinds that read one value. -/
def OpKind.isUnary : OpKind → Bool
  | .result | .identity | .reshape | .transpose | .squeeze | .unsqueeze | .quantizeRange => true
  | _ => false

/-- The operations that only move elements around read a single array. -/
theorem OpKind.isUnary_of_isLayout {kind : OpKind} (layout : kind.isLayout = true) :
    kind.isUnary = true := by
  cases kind <;> first | rfl | cases layout

/-- A unary node is refused for its number of inputs before anything else is looked
at. -/
theorem Typing.outputType_unary [Arithmetic α] {site : Typing.Site α}
    (unary : site.kind.isUnary = true) {failure : Failure}
    (refused : site.soleInput = .error failure) : Typing.outputType site = .error failure := by
  obtain ⟨kind, name, inputs, attributes⟩ := site
  cases kind <;> first
    | exact absurd unary Bool.false_ne_true
    | simp only [outputType, reshapeType, transposeType, squeezeType, unsqueezeType, rangeType,
        refused, Attempt.error_bind]

/-- A rule for one input refuses any other number of them. So a node that was typed
has exactly one. -/
theorem inferOutputs_unary [Arithmetic α] {kind : OpKind} {name : String}
    {inputs outputs : List TensorType} {attributes : Attributes α} (unary : kind.isUnary = true)
    (typed : inferOutputs kind name inputs attributes = .ok outputs) :
    ∃ input, inputs = [input] := by
  cases read : Typing.Site.soleInput ⟨kind, name, inputs, attributes⟩ with
  | ok input =>
    refine ⟨input, ?_⟩
    unfold Typing.Site.soleInput at read
    split at read
    · rename_i other listed
      rw [Except.ok.inj read] at listed
      exact listed
    · simp [Typing.Site.fail] at read
  | error failure =>
    simp [inferOutputs, Typing.outputType_unary unary read, Except.map] at typed

/-- A constant reads nothing. Its type comes from the array it stores. -/
theorem inferOutputs_constant [Arithmetic α] {name : String} {inputs outputs : List TensorType}
    {attributes : Attributes α}
    (typed : inferOutputs .constant name inputs attributes = .ok outputs) : inputs = [] := by
  cases inputs with
  | nil => rfl
  | cons input rest =>
    simp [inferOutputs, Typing.outputType, Typing.constantType, Typing.Site.expectInputs,
      Typing.Site.fail, Except.map] at typed

namespace Graph

section Chains

variable {graph : Graph α} {id : NodeId}

/-- Behind a node lies a chain of layout operations, reader first, and then a constant.
Each of them has a single reader. -/
inductive ChainTo (graph : Graph α) : NodeId → List NodeId → NodeId → Prop where
  | constant {id : NodeId} {node : Node α} (found : graph.node id = some node)
      (single : graph.isSingleUse id = true) (kind : node.kind = .constant) :
      ChainTo graph id [] id
  | layout {id source constant : NodeId} {node : Node α} {chain : List NodeId}
      (found : graph.node id = some node) (single : graph.isSingleUse id = true)
      (kind : node.kind.isLayout = true) (fed : graph.producer id 0 = some source)
      (rest : ChainTo graph source chain constant) : ChainTo graph id (id :: chain) constant

/-- The walk back from a node finds the chain that lies behind it. By induction on
the limit, one layout operation at a time. -/
theorem chainTo_of_constantBehind {limit : Nat} {id : NodeId} {chain : List NodeId}
    {constant : NodeId} (walked : graph.constantBehind limit id = some (chain, constant)) :
    graph.ChainTo id chain constant := by
  fun_induction constantBehind graph limit id generalizing chain with
  | case1 | case2 | case4 | case5 | case6 => simp at walked
  | case3 limit id node found single kind =>
    obtain ⟨rfl, rfl⟩ : [] = chain ∧ id = constant := by simpa using walked
    exact .constant found (by simpa using single) kind
  | case7 id node found single _ layout limit source fed inductionHypothesis =>
    obtain ⟨tail, behind, rfl⟩ : ∃ tail,
        graph.constantBehind limit source = some (tail, constant) ∧ id :: tail = chain := by
      simpa using walked
    exact .layout found (by simpa using single) (by simpa using layout) fed
      (inductionHypothesis behind)

/-- It finds every such chain that is not too long, and no other. The chain is
determined by its end, as every node on it reads one value. -/
theorem constantBehind_eq_some_iff {limit : Nat} {id : NodeId} {chain : List NodeId}
    {constant : NodeId} : graph.constantBehind limit id = some (chain, constant) ↔
      chain.length ≤ limit ∧ graph.ChainTo id chain constant := by
  constructor
  · intro walked
    refine ⟨?_, chainTo_of_constantBehind walked⟩
    fun_induction constantBehind graph limit id generalizing chain with
    | case1 | case2 | case4 | case5 | case6 => simp at walked
    | case3 =>
      obtain ⟨rfl, -⟩ : [] = chain ∧ _ := by simpa using walked
      exact Nat.zero_le _
    | case7 id node found single _ layout limit source fed inductionHypothesis =>
      obtain ⟨tail, behind, rfl⟩ : ∃ tail,
          graph.constantBehind limit source = some (tail, constant) ∧ id :: tail = chain := by
        simpa using walked
      exact Nat.succ_le_succ (inductionHypothesis behind)
  · rintro ⟨short, leads⟩
    induction leads generalizing limit with
    | constant found single kind =>
      unfold constantBehind
      simp [found, single, kind]
    | @layout id source constant node chain found single kind fed _ inductionHypothesis =>
      obtain ⟨rest, rfl⟩ := Nat.exists_eq_succ_of_ne_zero (Nat.ne_zero_of_lt short)
      have other : node.kind ≠ .constant := by
        intro same
        simp [same, OpKind.isLayout] at kind
      have behind := inductionHypothesis (Nat.le_of_succ_le_succ short)
      unfold constantBehind
      simp [found, single, other, kind, fed, behind]

/-- Neither the constant nor anything on the chain is an entry or an exit. They are
constants and layout operations, which may all be removed. -/
theorem ChainTo.kinds {chain : List NodeId} {constant : NodeId}
    (leads : graph.ChainTo id chain constant) :
    ∀ place, place ∈ constant :: chain →
      ∃ node, graph.node place = some node ∧ node.kind ≠ .parameter ∧ node.kind ≠ .result := by
  induction leads with
  | constant found _ kind =>
    intro place listed
    obtain rfl := List.mem_singleton.mp listed
    exact ⟨_, found, by simp [kind], by simp [kind]⟩
  | layout found _ kind _ _ inductionHypothesis =>
    intro place listed
    rcases List.mem_cons.mp listed with rfl | listed
    · exact inductionHypothesis _ List.mem_cons_self
    · rcases List.mem_cons.mp listed with rfl | listed
      · refine ⟨_, found, ?_, ?_⟩ <;>
          · intro same
            simp [same, OpKind.isLayout] at kind
      · exact inductionHypothesis place (List.mem_cons_of_mem _ listed)

end Chains

variable [Arithmetic α] {graph : Graph α} {interpretation : Interpretation α}
  {assignment : Assignment α} {id : NodeId} {node : Node α}

/-- What a node of a sound graph reads is the only value of its producer. Types are
inferred one to a node, so no second output can be named. -/
theorem Sound.slot_eq_zero (sound : graph.Sound) (found : graph.node id = some node)
    {source : OutputRef} (reads : source ∈ node.inputs) : source.slot = 0 := by
  obtain ⟨input, read⟩ := List.mem_iff_getElem?.mp reads
  obtain ⟨slot, produced⟩ := sound.linked.produced ⟨id, input⟩ source ⟨node, found, read⟩
  obtain ⟨producer, placed, output⟩ := outputSlot_eq_some_iff.mp produced
  have inside := (List.getElem?_eq_some_iff.mp output).1
  have one := sound.fresh.single source.node producer placed
  omega

/-- A node of a unary kind reads one value, the only one of its producer, and is
typed on it. What the rule says of its type can be used from here. -/
theorem Sound.sole_input (sound : graph.Sound) (found : graph.node id = some node)
    (unary : node.kind.isUnary = true) :
    ∃ source input, node.inputs = [source] ∧ source.slot = 0 ∧
      graph.outputType source = some input ∧
      inferOutputs node.kind node.name [input] node.attributes = .ok node.outputTypes := by
  obtain ⟨inputs, known, typed⟩ := sound.fresh id node found
  obtain ⟨input, rfl⟩ := inferOutputs_unary unary typed
  obtain ⟨source, listed, holds⟩ : ∃ source, node.inputs = [source] ∧
      graph.outputType source = some input := by
    simpa [List.map_eq_singleton_iff] using known
  exact ⟨source, input, listed,
    sound.slot_eq_zero found (by rw [listed]; exact List.mem_cons_self), holds, typed⟩

/-- A unary node of a sound graph reads exactly one value, the first output of
another node. -/
theorem Sound.sole_source (sound : graph.Sound) (found : graph.node id = some node)
    (unary : node.kind.isUnary = true) : ∃ source, node.inputs = [source] ∧ source.slot = 0 := by
  obtain ⟨source, _, inputs, slot, -, -⟩ := sound.sole_input found unary
  exact ⟨source, inputs, slot⟩

/-- So all of its inputs read that value. There is only one input in the first
place. -/
theorem Sound.reads_unary (sound : graph.Sound) (found : graph.node id = some node)
    (unary : node.kind.isUnary = true) {first second : Nat} {source other : OutputRef}
    (reads : graph.Reads ⟨id, first⟩ source) (readsOther : graph.Reads ⟨id, second⟩ other) :
    source = other ∧ source.slot = 0 := by
  obtain ⟨sole, inputs, slot⟩ := sound.sole_source found unary
  have only {input : Nat} {source : OutputRef} (reads : graph.Reads ⟨id, input⟩ source) :
      source = sole := by
    obtain ⟨again, foundAgain, listed⟩ := reads
    obtain rfl : node = again := Option.some.inj (found.symm.trans foundAgain)
    have member := List.mem_of_getElem? listed
    rw [inputs] at member
    exact List.mem_singleton.mp member
  exact ⟨(only reads).trans (only readsOther).symm, only reads ▸ slot⟩

/-- The value of a unary node is what it makes of the value of its producer. This is
its equation with the list of inputs written out. -/
theorem Sound.value_unary (sound : graph.Sound) (found : graph.node id = some node)
    (unary : node.kind.isUnary = true) {source : OutputRef} (reads : node.inputs = [source])
    (first : source.slot = 0) : graph.value interpretation assignment id =
      (graph.value interpretation assignment source.node).bind fun value =>
        node.denote interpretation [value] := by
  have inner : node.kind ≠ .parameter := by
    intro kind
    simp [kind, OpKind.isUnary] at unary
  rw [value_eq_valueFrom sound.linked sound.acyclic, valueFrom, found]
  simp only [Node.valueFrom, if_neg inner, reads, List.map_cons, List.map_nil, inputValue,
    if_pos first]
  cases graph.value interpretation assignment source.node <;> rfl

/-- The value of a constant is the array it stores. It has one, since it could not
be typed otherwise. -/
theorem Sound.value_constant (sound : graph.Sound) (found : graph.node id = some node)
    (kind : node.kind = .constant) :
    graph.value interpretation assignment id = node.attributes.tensor "value" := by
  obtain ⟨inputs, known, typed⟩ := sound.fresh id node found
  have none : node.inputs = [] := by
    rw [kind] at typed
    rw [inferOutputs_constant typed] at known
    exact List.map_eq_nil_iff.mp known
  rw [value_eq_valueFrom sound.linked sound.acyclic, valueFrom, found]
  simp [Node.valueFrom, kind, none, allValues, Node.denote]

/-- A layout operation means what carrying it out means. No interpretation has a say
in it. -/
theorem denote_of_evaluate (layout : node.kind.isLayout = true) {value next : Tensor α}
    (evaluated : node.evaluate value = .ok next) :
    node.denote interpretation [value] = some next := by
  have answer := Typing.toOption_eq_some_iff.mpr evaluated
  cases kind : node.kind <;> simp only [kind, OpKind.isLayout, Bool.false_eq_true] at layout
  case identity =>
    unfold Node.evaluate at evaluated
    split at evaluated
    · simp at evaluated
    · simp only [kind, Except.ok.injEq] at evaluated
      simp [Node.denote, kind, soleValue, evaluated]
  all_goals simp [Node.denote, kind, soleValue, answer]

/-- A chain is evaluated part by part, and a failure of the first part is the
failure of the whole. -/
theorem evaluateChain_append (first second : List NodeId) (value : Tensor α) :
    graph.evaluateChain (first ++ second) value =
      graph.evaluateChain first value >>= graph.evaluateChain second := by
  induction first generalizing value with
  | nil => rfl
  | cons id rest inductionHypothesis =>
    simp only [List.cons_append, evaluateChain]
    cases graph.nodeAt id with
    | error failure => rfl
    | ok node =>
      simp only [Attempt.ok_bind]
      cases node.evaluate value with
      | error failure => rfl
      | ok next => exact inductionHypothesis next

/-- The value of a node behind which a constant lies is what the chain makes of it.
By induction along the chain, each operation being evaluated on what lies behind it. -/
theorem Sound.value_of_chainTo (sound : graph.Sound) {chain : List NodeId} {constant : NodeId}
    (leads : graph.ChainTo id chain constant) {stored laidOut : Tensor α}
    (holds : graph.constantValue constant = some stored)
    (carried : graph.evaluateChain chain.reverse stored = .ok laidOut) :
    graph.value interpretation assignment id = some laidOut := by
  induction leads generalizing laidOut with
  | constant found _ kind =>
    rw [sound.value_constant found kind, ← Except.ok.inj carried, ← holds, constantValue, found]
    simp [kind]
  | @layout place source constant node chain found _ kind fed _ inductionHypothesis =>
    have unary := OpKind.isUnary_of_isLayout kind
    obtain ⟨read, reads, first⟩ := sound.sole_source found unary
    obtain rfl : read.node = source := by simpa [producer, found, reads] using fed
    rw [List.reverse_cons, evaluateChain_append] at carried
    cases before : graph.evaluateChain chain.reverse stored with
    | error failure => simp [before] at carried
    | ok middle =>
      have evaluated : node.evaluate middle = .ok laidOut := by
        cases last : node.evaluate middle with
        | error failure =>
          simp [before, evaluateChain, nodeAt_of_node found, last] at carried
        | ok next => simpa [before, evaluateChain, nodeAt_of_node found, last] using carried
      rw [sound.value_unary found unary reads first, inductionHypothesis holds before]
      exact denote_of_evaluate kind evaluated

end Graph

end RangeFold
