import RangeFold.Pass.BoundFusion
import RangeFold.Proofs.Graph.Succession
import RangeFold.Proofs.Pattern.Laying
import RangeFold.Proofs.Pass.Verdicts
import RangeFold.Proofs.Quantization.Validity

/-!
# Fusion is reliable

Where a range and a constant are found behind an operation, whatever the operation is, a
fusion changes the graph or leaves it alone. A range that is typed states all its parts, so
only its validity can be at fault, which is reported, or the size of what its bounds would be
stretched to, which takes a value larger than arrays can be. Once the edited range has passed,
nothing is left to fail: it reads what the old range read, so its type is that of the
operation, and no reader of the operation leads to it; the old range had no other reader; and
the operation's name is free when the operation is gone.

At least the operation and the range go, and one node comes.
-/

namespace RangeFold

open Attempt Relation

variable {α : Type}

namespace Graph

/-- The kind of the live node at a place. -/
def kindAt (graph : Graph α) (id : NodeId) : Option OpKind := (graph.node id).map Node.kind

/-- The kind at an id is that of the live node there. -/
theorem kindAt_eq_some_iff {graph : Graph α} {id : NodeId} {kind : OpKind} :
    graph.kindAt id = some kind ↔ ∃ node, graph.node id = some node ∧ node.kind = kind := by
  simp [kindAt]

/-- The first two inputs of a node read two nodes of the given kinds. -/
def ReadsKinds (graph : Graph α) (id : NodeId) (first second : OpKind) (left right : NodeId) :
    Prop :=
  ∃ node readsLeft readsRight rest, graph.node id = some node ∧
    node.inputs = readsLeft :: readsRight :: rest ∧ readsLeft.node = left ∧
      readsRight.node = right ∧ graph.kindAt left = some first ∧ graph.kindAt right = some second

/-- What a node reads determines the nodes and their kinds. Hence a site is found in
one way only. -/
theorem ReadsKinds.unique {graph : Graph α} {id left right otherLeft otherRight : NodeId}
    {first second otherFirst otherSecond : OpKind}
    (reads : graph.ReadsKinds id first second left right)
    (others : graph.ReadsKinds id otherFirst otherSecond otherLeft otherRight) :
    left = otherLeft ∧ right = otherRight ∧ first = otherFirst := by
  obtain ⟨node, readsLeft, readsRight, rest, found, inputs, rfl, rfl, kind, -⟩ := reads
  obtain ⟨again, _, _, _, foundAgain, inputsAgain, rfl, rfl, kindAgain, -⟩ := others
  obtain rfl : node = again := Option.some.inj (found.symm.trans foundAgain)
  obtain ⟨rfl, rfl, -⟩ : readsLeft = _ ∧ readsRight = _ ∧ rest = _ := by
    simpa using inputs.symm.trans inputsAgain
  exact ⟨rfl, rfl, Option.some.inj (kind.symm.trans kindAgain)⟩

end Graph

namespace Pattern

variable {graph : Graph α} {id : NodeId} {binding laid : Binding}

/-- A place without children lies on every live node of its kind. It binds its label
to the node and has nothing more to ask. -/
theorem layOn_leaf {kind : OpKind} {label : Option String} :
    layOn graph (⟨.exactly kind, label, [], none⟩ : Pattern α) id binding = some laid ↔
      graph.kindAt id = some kind ∧ (binding.bindLabel label id).map (·.lay id) = some laid := by
  rw [layOn_eq_some_iff, Graph.kindAt_eq_some_iff]
  simp only [admits, KindTest.accepts, List.length_nil, Nat.zero_le, decide_true, Bool.and_true,
    beq_iff_eq, layAll_nil, Option.some.injEq, Option.map_eq_some_iff]
  grind

/-- A pattern of a node over two labelled places lies where the node reads their
kinds. The labels must be different for the two nodes to be told apart. -/
theorem matchAt_binary {node : Node α} (found : graph.node id = some node) {first second : OpKind}
    {firstLabel secondLabel : String} (firstNew : firstLabel ≠ "op")
    (secondNew : secondLabel ≠ "op") (apart : secondLabel ≠ firstLabel) :
    (⟨.oneOf [node.kind], some "op", [⟨.exactly first, some firstLabel, [], none⟩,
        ⟨.exactly second, some secondLabel, [], none⟩], none⟩ : Pattern α).matchAt graph id =
          some binding ↔
      ∃ left right, graph.ReadsKinds id first second left right ∧
        binding = ⟨id, [("op", id), (firstLabel, left), (secondLabel, right)],
          [id, left, right]⟩ := by
  have children (left right : OutputRef) (rest : List OutputRef) :
      layAll graph ([⟨.exactly first, some firstLabel, [], none⟩,
          ⟨.exactly second, some secondLabel, [], none⟩] : List (Pattern α))
          (left :: right :: rest) ⟨id, [("op", id)], [id]⟩ = some binding ↔
        graph.kindAt left.node = some first ∧ graph.kindAt right.node = some second ∧
          binding = ⟨id, [("op", id), (firstLabel, left.node), (secondLabel, right.node)],
            [id, left.node, right.node]⟩ := by
    simp only [layAll_cons, layAll_nil, Option.bind_eq_some_iff, Option.some.injEq,
      exists_eq_right, layOn_leaf, Binding.bindLabel, Binding.get, List.lookup_cons,
      beq_false_of_ne firstNew, List.lookup_nil, Option.map_some, Binding.lay]
    grind
  rw [matchAt, layOn_eq_some_iff]
  constructor
  · rintro ⟨_, _, again, admitted, bound, laid⟩
    obtain rfl := Option.some.inj (found.symm.trans again)
    obtain ⟨left, right, rest, inputs⟩ :
        ∃ left right rest, node.inputs = left :: right :: rest := by
      cases listed : node.inputs with
      | nil => simp [admits, listed] at admitted
      | cons left others =>
        cases others with
        | nil => simp [admits, listed] at admitted
        | cons right rest => exact ⟨left, right, rest, rfl⟩
    obtain rfl := Option.some.inj bound
    rw [inputs] at laid
    obtain ⟨onLeft, onRight, same⟩ := (children left right rest).mp laid
    exact ⟨left.node, right.node,
      ⟨node, left, right, rest, found, inputs, rfl, rfl, onLeft, onRight⟩, same⟩
  · rintro ⟨_, _, ⟨_, left, right, rest, again, inputs, rfl, rfl, onLeft, onRight⟩, same⟩
    obtain rfl := Option.some.inj (found.symm.trans again)
    refine ⟨node, _, found, by simp [admits, KindTest.accepts, inputs], rfl, ?_⟩
    rw [inputs]
    exact (children left right rest).mpr ⟨onLeft, onRight, same⟩

end Pattern

namespace Graph

variable {graph : Graph α}

/-- Where a fusion may take place: a range and a constant are the first two inputs of an
operation, in this order or, if the operation commutes, in the other. -/
theorem fusionSite_eq_some_iff {id : NodeId} {commutative : Bool} {site : FusionSite} :
    graph.fusionSite id commutative = some site ↔ site.operation = id ∧
      (graph.ReadsKinds id .quantizeRange .constant site.range site.constant ∨
        commutative = true ∧
          graph.ReadsKinds id .constant .quantizeRange site.constant site.range) := by
  obtain ⟨operation, range, constant⟩ := site
  cases found : graph.node id with
  | none => simp [fusionSite, found, ReadsKinds]
  | some node =>
    have ordered (binding : Binding) :
        (Pattern.rangeThenConstant [node.kind]).matchAt graph id = some binding ↔ _ :=
      Pattern.matchAt_binary found (by decide) (by decide) (by decide)
    have swapped (binding : Binding) :
        (Pattern.constantThenRange [node.kind]).matchAt graph id = some binding ↔ _ :=
      Pattern.matchAt_binary found (by decide) (by decide) (by decide)
    cases first : (Pattern.rangeThenConstant [node.kind]).matchAt graph id with
    | some binding =>
      obtain ⟨left, right, reads, rfl⟩ := (ordered binding).mp first
      have chosen : graph.fusionSite id commutative = some ⟨id, left, right⟩ := by
        simp only [fusionSite, found, first, Option.bind_eq_bind, Option.bind_some]
        rfl
      rw [chosen, Option.some.injEq, FusionSite.mk.injEq]
      constructor
      · rintro ⟨rfl, rfl, rfl⟩
        exact ⟨rfl, .inl reads⟩
      · rintro ⟨rfl, same | ⟨-, other⟩⟩
        · obtain ⟨rfl, rfl, -⟩ := reads.unique same
          exact ⟨rfl, rfl, rfl⟩
        · cases (reads.unique other).2.2
    | none =>
      have unordered (left right : NodeId) :
          ¬ graph.ReadsKinds id .quantizeRange .constant left right := fun reads => by
        cases first.symm.trans ((ordered _).mpr ⟨left, right, reads, rfl⟩)
      cases commutative with
      | false => simp [fusionSite, found, first, unordered]
      | true =>
        cases second : (Pattern.constantThenRange [node.kind]).matchAt graph id with
        | some binding =>
          obtain ⟨left, right, reads, rfl⟩ := (swapped binding).mp second
          have chosen : graph.fusionSite id true = some ⟨id, right, left⟩ := by
            simp only [fusionSite, found, first, second, Option.bind_eq_bind, Option.bind_some,
              if_true]
            rfl
          rw [chosen, Option.some.injEq, FusionSite.mk.injEq]
          constructor
          · rintro ⟨rfl, rfl, rfl⟩
            exact ⟨rfl, .inr ⟨rfl, reads⟩⟩
          · rintro ⟨rfl, same | ⟨-, same⟩⟩
            · exact absurd same (unordered _ _)
            · obtain ⟨rfl, rfl, -⟩ := reads.unique same
              exact ⟨rfl, rfl, rfl⟩
        | none =>
          have unswapped (left right : NodeId) :
              ¬ graph.ReadsKinds id .constant .quantizeRange left right := fun reads => by
            cases second.symm.trans ((swapped _).mpr ⟨left, right, reads, rfl⟩)
          simp [fusionSite, found, first, second, unordered, unswapped]

/-- An operation reads a range and a constant. -/
structure Fuses (graph : Graph α) (site : FusionSite) : Prop where
  range : graph.kindAt site.range = some .quantizeRange
  constant : graph.kindAt site.constant = some .constant
  readsRange : graph.Feeds site.range site.operation
  readsConstant : graph.Feeds site.constant site.operation

/-- What is known of a node that reads two kinds: which edges there are, and what
stands at their other ends. -/
theorem ReadsKinds.feeds {id left right : NodeId} {first second : OpKind}
    (reads : graph.ReadsKinds id first second left right) :
    graph.Feeds left id ∧ graph.Feeds right id ∧ graph.kindAt left = some first ∧
      graph.kindAt right = some second := by
  obtain ⟨node, readsLeft, readsRight, rest, found, inputs, rfl, rfl, onLeft, onRight⟩ := reads
  exact ⟨⟨0, readsLeft.slot, node, found, by simp [inputs]⟩,
    ⟨1, readsRight.slot, node, found, by simp [inputs]⟩, onLeft, onRight⟩

/-- A chosen site lies at the node it was looked for at and satisfies the conditions
of fusing. The search may have found the constant on either side. -/
theorem fuses_of_fusionSite {id : NodeId} {commutative : Bool} {site : FusionSite}
    (chosen : graph.fusionSite id commutative = some site) :
    site.operation = id ∧ graph.Fuses site := by
  obtain ⟨rfl, reads | ⟨-, reads⟩⟩ := fusionSite_eq_some_iff.mp chosen
  · obtain ⟨feedsRange, feedsConstant, range, constant⟩ := reads.feeds
    exact ⟨rfl, range, constant, feedsRange, feedsConstant⟩
  · obtain ⟨feedsConstant, feedsRange, constant, range⟩ := reads.feeds
    exact ⟨rfl, range, constant, feedsRange, feedsConstant⟩

/-- A site has a range. Where no range is left, no fusion is possible. -/
theorem hasKind_of_fusionSite {id : NodeId} {commutative : Bool} {site : FusionSite}
    (chosen : graph.fusionSite id commutative = some site) :
    graph.hasKind .quantizeRange = true := by
  obtain ⟨range, found, kind⟩ :=
    kindAt_eq_some_iff.mp (fuses_of_fusionSite chosen).2.range
  have present := hasKind_of_node found
  rwa [kind] at present

/-- A live node is a range with the name that reads the value. -/
def RangeAt (graph : Graph α) (id : NodeId) (name : String) (source : OutputRef)
    (range : QuantRange α) : Prop :=
  ∃ node, graph.node id = some node ∧ node.name = name ∧ node.kind = .quantizeRange ∧
    node.inputs = [source] ∧ QuantRange.ofNode node = .ok range

/-- The heir is a range with the name. It reads what the old range read, with new
output bounds. -/
theorem rangeAt_successor {after : Graph α} {id : NodeId} {gone : List NodeId} {name : String}
    {source : OutputRef} {range : QuantRange α} {outputs : List OutputSlot}
    (left : ∀ other, after.node other = graph.successor id gone
      ⟨.quantizeRange, name, [source], outputs, range.toAttributes⟩ other) :
    after.RangeAt graph.arena.length name source range := by
  have heir := left graph.arena.length
  rw [successor, if_pos rfl] at heir
  exact ⟨_, heir, rfl, rfl, rfl, QuantRange.ofAttributes_toAttributes _ range⟩

/-- An heir that takes over the outputs leaves no types behind that were not there.
All other nodes keep theirs. -/
theorem inherits_of_successor {after : Graph α} {id : NodeId} {gone : List NodeId}
    {node heir : Node α} (found : graph.node id = some node)
    (left : ∀ other, after.node other = graph.successor id gone heir other)
    (outputs : heir.outputs = node.outputs) : after.Inherits graph := by
  refine .of_node fun other last leaves => ?_
  rw [left, successor] at leaves
  split at leaves
  · obtain rfl := Option.some.inj leaves
    exact ⟨id, node, found, congrArg (List.map OutputSlot.type) outputs⟩
  · split at leaves
    · cases leaves
    · obtain ⟨old, foundOld, rfl⟩ := Option.map_eq_some_iff.mp leaves
      exact ⟨other, old, foundOld, by
        rw [Node.reread_outputTypes, Node.relist_outputTypes]⟩

variable {site : FusionSite}

/-- The range and the constant of a site are two nodes. Their kinds differ. -/
theorem Fuses.apart (fuses : graph.Fuses site) : site.constant ≠ site.range := fun same => by
  have kinds := fuses.range.symm.trans (same ▸ fuses.constant)
  simp at kinds

/-- What goes with the operation of a site: the range, and the constant if nothing else reads it. -/
def fusedAway (graph : Graph α) (site : FusionSite) : List NodeId :=
  site.range ::
    if (graph.readers site.constant).all (· = site.operation) then [site.constant] else []

/-- A fusion does away with the old range and, if nobody else reads it, with the
constant. The operation itself goes when its readers are moved. -/
theorem Linked.mem_fusedAway_iff (linked : graph.Linked) {id : NodeId} :
    id ∈ graph.fusedAway site ↔ id = site.range ∨
      id = site.constant ∧ ∀ reader, graph.Feeds id reader → reader = site.operation := by
  rw [fusedAway, List.mem_cons]
  refine or_congr_right ?_
  constructor
  · intro among
    split at among
    · rename_i alone
      obtain rfl := List.mem_singleton.mp among
      refine ⟨rfl, fun reader feeds => ?_⟩
      simpa using List.all_eq_true.mp alone reader (linked.mem_readers_iff.mpr feeds)
    · cases among
  · rintro ⟨rfl, alone⟩
    rw [if_pos (List.all_eq_true.mpr fun reader reads => by
      simpa using alone reader (linked.mem_readers_iff.mp reads))]
    exact List.mem_singleton_self _

variable [Arithmetic α]

/-- The constant is not the operation that reads it, as their kinds differ. -/
theorem Fuses.constant_ne_operation (fuses : graph.Fuses site) (sound : graph.Sound) :
    site.constant ≠ site.operation := fun same =>
  sound.acyclic site.operation (.single (same ▸ fuses.readsConstant))

/-- An operation on a range and a constant is inside the graph. It computes
something, which neither an entry nor an exit does. -/
theorem Fuses.inner (fuses : graph.Fuses site) (sound : graph.Sound) {operation : Node α}
    (found : graph.node site.operation = some operation) :
    operation.kind ≠ .parameter ∧ operation.kind ≠ .result := by
  obtain ⟨input, slot, readsRange⟩ := fuses.readsRange
  obtain ⟨other, otherSlot, readsConstant⟩ := fuses.readsConstant
  have listed : operation.inputs[input]? = some ⟨site.range, slot⟩ := by
    obtain ⟨again, foundAgain, listed⟩ := readsRange
    rwa [Option.some.inj (found.symm.trans foundAgain)]
  refine ⟨sound.not_parameter_of_reads found (List.mem_of_getElem? listed), fun kind => ?_⟩
  have unary : operation.kind.isUnary = true := by rw [kind]; rfl
  obtain ⟨same, -⟩ := sound.reads_unary found unary readsConstant readsRange
  exact fuses.apart (congrArg OutputRef.node same)

/-- A node that one input reads has no other reader. The single use is counted over
recorded consumers, which are the actual ones. -/
theorem Sound.reader_unique (sound : graph.Sound) {id reader other : NodeId}
    (single : graph.isSingleUse id = true) (feeds : graph.Feeds id reader)
    (feedsOther : graph.Feeds id other) : other = reader := by
  rw [← sound.linked.mem_readers_iff] at feeds feedsOther
  cases found : graph.node id with
  | none => simp [readers, found] at feeds
  | some node =>
    have counted : (graph.readers id).length = 1 := by
      have one : node.consumerCount = 1 := by
        simpa [isSingleUse, consumerCount, found] using single
      simp [readers, found, consumers_length, one]
    obtain ⟨only, sole⟩ := List.length_eq_one_iff.mp counted
    rw [sole, List.mem_singleton] at feeds feedsOther
    rw [feeds, feedsOther]

/-- It feeds the operation. This holds for the range and for the constant alike. -/
theorem Fuses.feeds_of_mem (fuses : graph.Fuses site) (sound : graph.Sound) {id : NodeId}
    (among : id ∈ graph.fusedAway site) : graph.Feeds id site.operation := by
  rcases sound.linked.mem_fusedAway_iff.mp among with rfl | ⟨rfl, -⟩
  · exact fuses.readsRange
  · exact fuses.readsConstant

/-- A range that only one operation reads hangs on it, with the constant if that
goes too. Nothing outside reads either of them, so they go with the operation. -/
theorem Fuses.hangs (fuses : graph.Fuses site) (sound : graph.Sound)
    (single : graph.isSingleUse site.range = true) :
    graph.Hangs site.operation (graph.fusedAway site) where
  distinct := by
    refine List.nodup_cons.mpr ⟨fun among => ?_, ?_⟩
    · exact sound.acyclic site.operation (.single (fuses.feeds_of_mem sound among))
    · unfold fusedAway
      split <;> simp [fuses.apart.symm]
  live id among := by
    obtain ⟨_, _, reads⟩ := fuses.feeds_of_mem sound among
    obtain ⟨slot, live⟩ := sound.linked.produced _ _ reads
    obtain ⟨node, found, -⟩ := outputSlot_eq_some_iff.mp live
    exact ⟨node, found⟩
  closed id among reader feeds := by
    rcases sound.linked.mem_fusedAway_iff.mp among with rfl | ⟨-, alone⟩
    · exact sound.reader_unique single fuses.readsRange feeds ▸ List.mem_cons_self
    · exact alone reader feeds ▸ List.mem_cons_self
  turns := by
    refine List.pairwise_cons.mpr ⟨fun id among feeds => ?_, by split <;> simp⟩
    have cyclic := fuses.feeds_of_mem sound (List.mem_cons_of_mem site.range among)
    rw [sound.reader_unique single fuses.readsRange feeds] at cyclic
    exact sound.acyclic site.operation (.single cyclic)

/-- A range that may take the place of an operation: it reads the value that the range before
the operation reads, which its bounds fit. -/
structure Fusible (graph : Graph α) (site : FusionSite) (name : String) (source : OutputRef)
    (range : QuantRange α) : Prop where
  single : graph.isSingleUse site.range = true
  named : graph.nameAt site.operation = some name
  typed : graph.outputType ⟨site.range, 0⟩ = graph.outputType ⟨site.operation, 0⟩
  reads : graph.Reads ⟨site.range, 0⟩ source
  fits : ∀ input, graph.outputType source = some input → range.Fits input.shape

/-- A range node reads one floating value and passes its type on, and it states a range that fits. -/
theorem Sound.range_states (sound : graph.Sound) {id : NodeId} {node : Node α}
    (found : graph.node id = some node) (kind : node.kind = .quantizeRange) :
    ∃ source input range, node.inputs = [source] ∧ source.slot = 0 ∧
      graph.outputType source = some input ∧ node.outputType 0 = some input ∧
      input.element.isFloat = true ∧ QuantRange.ofNode node = .ok range ∧
      range.Fits input.shape := by
  obtain ⟨source, input, inputs, slot, known, typed⟩ :=
    sound.sole_input found (by rw [kind]; rfl)
  rw [kind, Typing.inferOutputs_range_iff] at typed
  obtain ⟨passed, floating, range, stated, fits⟩ := typed
  refine ⟨source, input, range, inputs, slot, known, ?_, floating, ?_, fits⟩
  · rw [Node.outputType_eq, passed]
    rfl
  · rw [QuantRange.ofNode, if_pos kind, stated]

/-- A range of a sound graph has a floating-point input, whose type it passes on. -/
theorem Sound.range_input (sound : graph.Sound) {id : NodeId} {source : OutputRef}
    (kind : graph.kindAt id = some .quantizeRange) (reads : graph.Reads ⟨id, 0⟩ source) :
    ∃ input, graph.outputType source = some input ∧ graph.outputType ⟨id, 0⟩ = some input ∧
      input.element.isFloat = true := by
  obtain ⟨node, found, kind⟩ := kindAt_eq_some_iff.mp kind
  obtain ⟨again, foundAgain, listed⟩ := reads
  obtain rfl : node = again := Option.some.inj (found.symm.trans foundAgain)
  obtain ⟨sole, input, -, inputs, -, known, typed, floating, -⟩ := sound.range_states found kind
  obtain rfl : sole = source := by simpa [inputs] using listed
  exact ⟨input, known, by simpa [Graph.outputType, found] using typed, floating⟩

/-- Once the range has gone, the constant has no reader any more just if it goes
too. The heir reads the input of the range and not the constant. -/
theorem Fuses.isUnused_constant (fuses : graph.Fuses site) (sound : graph.Sound)
    {source : OutputRef} (reads : graph.Reads ⟨site.range, 0⟩ source) {heir : Node α}
    (inputs : heir.inputs = [source]) {after : Graph α}
    (left : after.node site.constant =
      graph.successor site.operation [site.operation, site.range] heir site.constant) :
    after.isUnused site.constant =
      (graph.readers site.constant).all (· = site.operation) := by
  obtain ⟨constant, found, -⟩ := kindAt_eq_some_iff.mp fuses.constant
  obtain ⟨range, foundRange, kind⟩ := kindAt_eq_some_iff.mp fuses.range
  obtain ⟨operation, foundOperation⟩ : ∃ node, graph.node site.operation = some node := by
    obtain ⟨_, _, node, found, -⟩ := fuses.readsRange
    exact ⟨node, found⟩
  have young : graph.arena.length ∉ [site.operation, site.range] := by
    simp [(ne_of_node foundOperation).symm, (ne_of_node foundRange).symm]
  have stays : site.constant ∉ [site.operation, site.range] := by
    simp [fuses.constant_ne_operation sound, fuses.apart]
  rw [Bool.eq_iff_iff, sound.isUnused_succession found young stays left, inputs,
    List.mem_singleton, List.all_eq_true]
  simp only [sound.linked.mem_readers_iff, decide_eq_true_eq]
  -- The range reads the constant just if that is what the heir reads.
  have source_eq : graph.Feeds site.constant site.range ↔ ⟨site.constant, 0⟩ = source := by
    have unary : range.kind.isUnary = true := by rw [kind]; rfl
    constructor
    · rintro ⟨_, slot, readsConstant⟩
      obtain ⟨rfl, first⟩ := sound.reads_unary foundRange unary readsConstant reads
      exact congrArg _ (show slot = 0 from first).symm
    · rintro rfl
      exact ⟨0, 0, reads⟩
  rw [← source_eq]
  have cyclic (same : site.range = site.operation) : False :=
    sound.acyclic site.operation (.single (same ▸ fuses.readsRange))
  constructor
  · rintro ⟨within, unread⟩ reader feeds
    have among := within reader feeds
    simp only [List.mem_cons, List.not_mem_nil, or_false] at among
    exact among.resolve_right fun same => unread (same ▸ feeds)
  · intro alone
    exact ⟨fun reader feeds => by simp [alone reader feeds],
      fun feeds => cyclic (alone site.range feeds)⟩

/-- A range that may take the place of an operation does so, and leaves fewer nodes. It takes over
the name, the type and the readers of the operation, which goes with the range before it and with
the constant if nothing else reads that. -/
theorem Fusible.installRange_eq {name : String} {source : OutputRef} {range : QuantRange α}
    (fusible : graph.Fusible site name source range) (sound : graph.Sound)
    (fuses : graph.Fuses site) : ∃ operation after, graph.node site.operation = some operation ∧
      installRange site name source range graph = (.ok (), after) ∧ after.Sound ∧
      after.live < graph.live ∧
      ∀ other, after.node other =
        graph.successor site.operation (site.operation :: graph.fusedAway site)
          ⟨.quantizeRange, name, [source], operation.outputs, range.toAttributes⟩ other := by
  obtain ⟨operation, found, named⟩ := nameAt_eq_some_iff.mp fusible.named
  obtain ⟨inner, innerToo⟩ := fuses.inner sound found
  obtain ⟨input, known, typed, floating⟩ := sound.range_input fuses.range fusible.reads
  have feedsRange : graph.Feeds source.node site.range := ⟨0, source.slot, fusible.reads⟩
  let label := graph.uniqueName (name ++ "_fused")
  have inferred : inferOutputs .quantizeRange label [input] range.toAttributes = .ok [input] :=
    Typing.inferOutputs_range_iff.mpr ⟨rfl, floating, range,
      QuantRange.ofAttributes_toAttributes label range, fusible.fits input known⟩
  have reading : [source].map graph.outputType = [input].map some := by simp [known]
  have hangs := fuses.hangs sound fusible.single
  -- What goes is not read by the range, so the range in its place does not read it either.
  have apart : source.node ∉ graph.fusedAway site := fun among => by
    rcases sound.linked.mem_fusedAway_iff.mp among with same | ⟨-, alone⟩
    · exact sound.acyclic site.range (.single (same ▸ feedsRange))
    · have cyclic := alone site.range feedsRange ▸ fuses.readsRange
      exact sound.acyclic site.operation (.single cyclic)
  have typedOperation := fusible.typed ▸ typed
  obtain ⟨middle, adding, replacing, heir, counted, clearable, -, -, rejoined⟩ :=
    sound.supersede found inner innerToo (findName_uniqueName graph _) reading inferred
      typedOperation (by simpa using TransGen.tail (.single feedsRange) fuses.readsRange) hangs
      (by simpa using apart)
  rw [named] at heir
  have succession (rest : List NodeId) (within : ∀ id ∈ rest, id ∈ graph.fusedAway site)
      (other : NodeId) : (middle.cleared rest).node other =
        graph.successor site.operation (site.operation :: rest)
          ⟨.quantizeRange, label, [source], operation.outputs, range.toAttributes⟩ other := by
    rw [rejoined, ← sound.outputs_eq found typedOperation]
    refine sound.node_succession found (fun among => ?_) (fun reader feeds gone => ?_) other
    · obtain ⟨old, live⟩ := hangs.live _ (within _ among)
      exact ne_of_node live rfl
    · rcases List.mem_cons.mp gone with same | among
      · exact sound.acyclic reader (.single (same ▸ feeds))
      · exact sound.acyclic reader
          (.head (fuses.feeds_of_mem sound (within reader among)) (.single feeds))
  have young : graph.arena.length ∉ graph.fusedAway site := fun among => by
    obtain ⟨old, live⟩ := hangs.live _ among
    exact ne_of_node live rfl
  obtain ⟨-, -, countedLess⟩ := heir.sound.removeEach_eq clearable
  obtain ⟨after, renamed, soundAfter, same, -⟩ := (heir.cleared clearable young).renameNode_eq
  refine ⟨operation, after, found, ?_, soundAfter, ?_,
    node_renamed_heir renamed (succession _ fun _ among => among)⟩
  · obtain ⟨_, removed, soundLast, clearableLast⟩ := clearable.removeNode_eq heir.sound
    have unused := fuses.isUnused_constant sound fusible.reads rfl
      (succession [site.range] (by simp [fusedAway]) site.constant)
    rw [installRange, read_bind, bind_of_ok adding, bind_of_ok (orElse_of_ok replacing),
      bind_of_ok removed, read_bind, unused]
    rw [fusedAway] at renamed
    split
    · rename_i alone
      rw [if_pos alone] at renamed clearableLast
      obtain ⟨_, removedConstant, -, -⟩ := clearableLast.removeNode_eq soundLast
      rw [bind_of_ok removedConstant]
      exact renamed
    · rename_i shared
      rw [if_neg shared] at renamed
      exact renamed
  · have some : 0 < (graph.fusedAway site).length := List.length_pos_of_mem List.mem_cons_self
    omega

end Graph

namespace QuantRange

variable {range edited : QuantRange α}

/-- An edit of the output bounds combines both of them and leaves the rest. Either
combination can be impossible, for the shapes or for the size of what they broadcast
to. -/
theorem mapOutput_eq_some_iff [Inhabited α] {function : α → α → α} {operand : Tensor α} :
    range.mapOutput function operand = some edited ↔
      ∃ low high, range.outputLow.combine function operand = some low ∧
        range.outputHigh.combine function operand = some high ∧
        { range with outputLow := low, outputHigh := high } = edited := by
  simp [mapOutput, Option.bind_eq_some_iff]

/-- Changing output bounds leaves the input bounds. -/
theorem inputs_mapOutput [Inhabited α] {function : α → α → α} {operand : Tensor α}
    (mapped : range.mapOutput function operand = some edited) :
    edited.inputLow = range.inputLow ∧ edited.inputHigh = range.inputHigh := by
  obtain ⟨low, high, -, -, rfl⟩ := mapOutput_eq_some_iff.mp mapped
  exact ⟨rfl, rfl⟩

/-- Changing output bounds leaves the number of levels. -/
theorem levels_mapOutput [Inhabited α] {function : α → α → α} {operand : Tensor α}
    (mapped : range.mapOutput function operand = some edited) : edited.levels = range.levels := by
  obtain ⟨low, high, -, -, rfl⟩ := mapOutput_eq_some_iff.mp mapped
  rfl

/-- An edited range fits if its output bounds do and the range before fitted. Input
bounds are not edited, so they need no new check. -/
theorem Fits.of_inputs {shape : Shape} (fits : range.Fits shape)
    (inputs : edited.inputLow = range.inputLow ∧ edited.inputHigh = range.inputHigh)
    (low : edited.outputLow.shape.fits shape = true)
    (high : edited.outputHigh.shape.fits shape = true) : edited.Fits shape := by
  obtain ⟨inputLow, inputHigh, -, -⟩ := fits_iff.mp fits
  exact fits_iff.mpr ⟨inputs.1 ▸ inputLow, inputs.2 ▸ inputHigh, low, high⟩

end QuantRange

namespace Graph

variable [Arithmetic α] {graph : Graph α} {site : FusionSite}

/-- What a fusion finds out in a sound graph, where the range before the operation states a range
that fits what it reads. -/
theorem Fuses.fusedRange_eq (fuses : graph.Fuses site) (sound : graph.Sound)
    {rangeNode operation : Node α} (foundRange : graph.node site.range = some rangeNode)
    (foundOperation : graph.node site.operation = some operation) :
    ∃ source input range, rangeNode.inputs = [source] ∧ graph.outputType source = some input ∧
      rangeNode.outputType 0 = some input ∧ QuantRange.ofNode rangeNode = .ok range ∧
      range.Fits input.shape ∧ ∀ edit, fusedRange graph site edit =
        if graph.isSingleUse site.range = true ∧
            rangeNode.outputType 0 = operation.outputType 0 then
          range.validate rangeNode.name >>= fun _ =>
            (edit range).elim (pure none) fun edited =>
              if edited.outputLow.shape.fits input.shape && edited.outputHigh.shape.fits input.shape
              then edited.validate operation.name >>= fun _ =>
                pure (some (operation.name, source, edited))
              else pure none
        else .ok none := by
  have kind : rangeNode.kind = .quantizeRange := by
    simpa [kindAt, foundRange] using fuses.range
  obtain ⟨source, input, range, inputs, -, known, typed, -, stated, fits⟩ :=
    sound.range_states foundRange kind
  refine ⟨source, input, range, inputs, known, typed, stated, fits, fun edit => ?_⟩
  by_cases single : graph.isSingleUse site.range = true
  · by_cases types : rangeNode.outputType 0 = operation.outputType 0
    · simp only [fusedRange, single, Bool.not_true, Bool.false_eq_true, if_false,
        nodeAt_of_node foundRange, nodeAt_of_node foundOperation, ok_bind, types, ne_eq,
        not_true_eq_false, inputs, List.getElem?_cons_zero, known, stated, and_self, if_true]
      exact bind_congr fun _ => by cases edit range <;> rfl
    · simp [fusedRange, single, nodeAt_of_node foundRange, nodeAt_of_node foundOperation, types,
        pure, Except.pure]
  · simp [fusedRange, single]

/-- Asked for the range of a fusion, a sound graph has one to offer, or none, or one that fails the
check before or after the edit. The last is reported, unless a value is larger than arrays can be. -/
theorem Fuses.fusedRange_cases (fuses : graph.Fuses site) (sound : graph.Sound)
    {edit : QuantRange α → Option (QuantRange α)}
    (keeps : ∀ range edited, edit range = some edited →
      edited.inputLow = range.inputLow ∧ edited.inputHigh = range.inputHigh) :
    (∃ failure, fusedRange graph site edit = .error failure ∧
        (graph.Storable → failure.isRecoverable = true)) ∨
      fusedRange graph site edit = .ok none ∨
      ∃ name source range, graph.Fusible site name source range ∧
        fusedRange graph site edit = .ok (some (name, source, range)) := by
  obtain ⟨rangeNode, foundRange, -⟩ := kindAt_eq_some_iff.mp fuses.range
  obtain ⟨_, _, operation, foundOperation, -⟩ := fuses.readsRange
  obtain ⟨source, input, range, inputs, known, -, -, fits, start⟩ :=
    fuses.fusedRange_eq sound foundRange foundOperation
  have reads : graph.Reads ⟨site.range, 0⟩ source := ⟨rangeNode, foundRange, by simp [inputs]⟩
  rw [start edit]
  split
  · rename_i qualifies
    cases valid : range.validate rangeNode.name with
    | error failure =>
      exact .inl ⟨failure, rfl, fun stored =>
        QuantRange.recoverable_of_validate (fits.comparable (stored source input known)) valid⟩
    | ok _ =>
      rw [ok_bind]
      cases edits : edit range with
      | none => exact .inr (.inl rfl)
      | some edited =>
        by_cases fit : edited.outputLow.shape.fits input.shape = true ∧
            edited.outputHigh.shape.fits input.shape = true
        · have fitsEdited := fits.of_inputs (keeps range edited edits) fit.1 fit.2
          simp only [Option.elim_some, fit.1, fit.2, Bool.and_self, if_true]
          cases validEdited : edited.validate operation.name with
          | error failure =>
            exact .inl ⟨failure, rfl, fun stored => QuantRange.recoverable_of_validate
              (fitsEdited.comparable (stored source input known)) validEdited⟩
          | ok _ =>
            refine .inr (.inr ⟨operation.name, source, edited,
              ⟨qualifies.1, ?_, ?_, reads, ?_⟩, rfl⟩)
            · exact nameAt_eq_some_iff.mpr ⟨operation, foundOperation, rfl⟩
            · simp [Graph.outputType, foundRange, foundOperation, qualifies.2]
            · intro other knownOther
              obtain rfl : input = other := Option.some.inj (known.symm.trans knownOther)
              exact fitsEdited
        · exact .inr (.inl (if_neg (by simpa using fit)))
  · exact .inr (.inl rfl)

/-- An offered range may take the place of the operation. It has the type of the
operation, as the checks of the offer have made sure. -/
theorem Fuses.fusible_of_offer (fuses : graph.Fuses site) (sound : graph.Sound)
    {edit : QuantRange α → Option (QuantRange α)}
    (keeps : ∀ range edited, edit range = some edited →
      edited.inputLow = range.inputLow ∧ edited.inputHigh = range.inputHigh)
    {name : String} {source : OutputRef} {range : QuantRange α}
    (offered : fusedRange graph site edit = .ok (some (name, source, range))) :
    graph.Fusible site name source range := by
  rcases fuses.fusedRange_cases sound keeps with
    ⟨failure, refused, -⟩ | none | ⟨_, _, _, fusible, same⟩
  · cases refused.symm.trans offered
  · cases none.symm.trans offered
  · obtain ⟨rfl, rfl, rfl⟩ : _ = name ∧ _ = source ∧ _ = range := by
      simpa using same.symm.trans offered
    exact fusible

/-- An offered range is the valid range before the operation with its output bounds edited. It
takes over the name of the operation, which keeps the type, and what the range before reads, which
the edited bounds fit. -/
theorem fusedRange_eq_some_iff {edit : QuantRange α → Option (QuantRange α)} {name : String}
    {source : OutputRef} {edited : QuantRange α} :
    fusedRange graph site edit = .ok (some (name, source, edited)) ↔
      graph.isSingleUse site.range = true ∧ ∃ rangeNode operation range input,
        graph.node site.range = some rangeNode ∧ graph.node site.operation = some operation ∧
        operation.name = name ∧ rangeNode.outputType 0 = operation.outputType 0 ∧
        rangeNode.inputs[0]? = some source ∧ graph.outputType source = some input ∧
        QuantRange.ofNode rangeNode = .ok range ∧ range.validate rangeNode.name = .ok () ∧
        edit range = some edited ∧ edited.outputLow.shape.fits input.shape = true ∧
        edited.outputHigh.shape.fits input.shape = true ∧ edited.validate name = .ok () := by
  constructor
  · intro offered
    unfold fusedRange at offered
    split at offered
    · cases offered
    rename_i single
    obtain ⟨rangeNode, foundRange, offered⟩ := bind_eq_ok_iff.mp offered
    obtain ⟨operation, foundOperation, offered⟩ := bind_eq_ok_iff.mp offered
    split at offered
    · cases offered
    rename_i types
    split at offered
    · cases offered
    rename_i read reads
    split at offered
    · cases offered
    rename_i input known
    obtain ⟨range, stated, offered⟩ := bind_eq_ok_iff.mp offered
    obtain ⟨_, valid, offered⟩ := bind_eq_ok_iff.mp offered
    split at offered
    · cases offered
    rename_i changed edits
    split at offered
    case isFalse => cases offered
    case isTrue fits =>
      obtain ⟨_, validEdited, same⟩ := bind_eq_ok_iff.mp offered
      obtain ⟨rfl, rfl, rfl⟩ : operation.name = name ∧ read = source ∧ changed = edited := by
        simpa [pure, Except.pure] using same
      obtain ⟨low, high⟩ := Bool.and_eq_true_iff.mp fits
      exact ⟨by simpa using single, rangeNode, operation, range, input,
        nodeAt_eq_ok_iff.mp foundRange, nodeAt_eq_ok_iff.mp foundOperation, rfl,
        not_not.mp types, reads, known, stated, valid, edits, low, high, validEdited⟩
  · rintro ⟨single, rangeNode, operation, range, input, foundRange, foundOperation, rfl, types,
      reads, known, stated, valid, edits, low, high, validEdited⟩
    simp only [fusedRange, single, Bool.not_true, Bool.false_eq_true, if_false,
      nodeAt_of_node foundRange, nodeAt_of_node foundOperation, ok_bind, types, ne_eq,
      not_true_eq_false, reads, known, stated, valid, edits, low, high, Bool.and_self, if_true,
      validEdited]
    rfl

/-- The offered range is installed, which leaves fewer nodes. The range and the
operation go and one node comes; the constant may go as well. -/
theorem Fusible.fuseInto_eq {name : String} {source : OutputRef} {range : QuantRange α}
    (fusible : graph.Fusible site name source range) (sound : graph.Sound)
    (fuses : graph.Fuses site) {edit : QuantRange α → Option (QuantRange α)}
    (offered : fusedRange graph site edit = .ok (some (name, source, range))) :
    ∃ operation after, graph.node site.operation = some operation ∧
      fuseInto site edit graph = (.ok true, after) ∧ after.Sound ∧ after.live < graph.live ∧
      ∀ other, after.node other =
        graph.successor site.operation (site.operation :: graph.fusedAway site)
          ⟨.quantizeRange, name, [source], operation.outputs, range.toAttributes⟩ other := by
  obtain ⟨operation, after, found, installed, soundAfter, fewer, left⟩ :=
    fusible.installRange_eq sound fuses
  refine ⟨operation, after, found, ?_, soundAfter, fewer, left⟩
  rw [fuseInto, read_bind, lift_bind_of_ok offered]
  show (installRange site name source range >>= fun _ => pure true) graph = _
  rw [bind_of_ok installed]
  rfl

/-- Without a range to offer nothing happens. It answers that it made no change. -/
theorem fuseInto_of_none {edit : QuantRange α → Option (QuantRange α)}
    (none : fusedRange graph site edit = .ok none) :
    fuseInto site edit graph = (.ok false, graph) := by
  rw [fuseInto, read_bind, lift_bind_of_ok none]
  rfl

/-- A fusion whose new range cannot be formed is refused before any edit, so the
graph is the same. -/
theorem fuseInto_of_error {edit : QuantRange α → Option (QuantRange α)} {failure : Failure}
    (refused : fusedRange graph site edit = .error failure) :
    fuseInto site edit graph = (.error failure, graph) := by
  rw [fuseInto, read_bind, lift_bind_of_error refused]

/-- A fusion at an operation on a range and a constant has a verdict. Either it goes
through with a node fewer, or nothing has changed. -/
theorem Fuses.verdict (fuses : graph.Fuses site) (sound : graph.Sound)
    {edit : QuantRange α → Option (QuantRange α)}
    (keeps : ∀ range edited, edit range = some edited →
      edited.inputLow = range.inputLow ∧ edited.inputHigh = range.inputHigh) :
    Pass.Verdict (fun graph => graph) (fuseInto site edit) graph := by
  rcases fuses.fusedRange_cases sound keeps with
    ⟨failure, refused, reported⟩ | none | ⟨name, source, range, fusible, offered⟩
  · exact .of_failed (fuseInto_of_error refused) reported
  · exact .declines (fuseInto_of_none none)
  · obtain ⟨_, after, found, applied, soundAfter, fewer, left⟩ :=
      fusible.fuseInto_eq sound fuses offered
    exact .changes applied soundAfter fewer (inherits_of_successor found left rfl)

end Graph

/-- Where a pass may fuse and how it edits the range there. -/
abbrev FusionEdit (α : Type) := FusionSite × (QuantRange α → Option (QuantRange α))

section Passes

variable [Arithmetic α] {graph : Graph α} {id : NodeId}

/-- A scale that a range and a constant make, if the constant is one. -/
def scaleEdit (graph : Graph α) (id : NodeId) : Option (FusionEdit α) := do
  let site ← graph.fusionSite id true
  let scale ← graph.constantValue site.constant
  if isScale scale then some (site, fun range => range.mapOutput Arithmetic.mul scale) else none

/-- A shift that a range and a constant make, if the constant is one. -/
def shiftEdit (graph : Graph α) (id : NodeId) : Option (FusionEdit α) := do
  let (site, signed) ← shiftSite graph id
  let shift ← graph.constantValue site.constant
  if isShift shift then
    some (site, fun range => range.mapOutput Arithmetic.add (signed shift))
  else none

/-- Fuse as an edit says, if there is one. -/
def fuseBy (edit : Graph α → NodeId → Option (FusionEdit α)) (id : NodeId) :
    Attempt (Graph α) Bool := fun graph =>
  match edit graph id with
  | none => (.ok false, graph)
  | some (site, change) => fuseInto site change graph

/-- The multiply fusion is the general fusion, by the edit that scales bounds. -/
theorem fuseScale_eq (id : NodeId) :
    fuseScale id = (fuseBy scaleEdit id : Attempt (Graph α) Bool) := by
  funext graph
  rw [fuseScale, read_bind, fuseBy, scaleEdit]
  cases graph.fusionSite id true with
  | none => rfl
  | some site =>
    simp only [Option.bind_eq_bind, Option.bind_some]
    cases graph.constantValue site.constant with
    | none => rfl
    | some scale => by_cases positive : isScale scale = true <;> simp [positive]

/-- The add fusion is the general fusion, by the edit that shifts bounds.
Subtraction enters through the sign of the operand. -/
theorem fuseShift_eq (id : NodeId) :
    fuseShift id = (fuseBy shiftEdit id : Attempt (Graph α) Bool) := by
  funext graph
  rw [fuseShift, read_bind, fuseBy, shiftEdit]
  cases shiftSite graph id with
  | none => rfl
  | some signed =>
    simp only [Option.bind_eq_bind, Option.bind_some]
    cases graph.constantValue signed.1.constant with
    | none => rfl
    | some shift => by_cases finite : isShift shift = true <;> simp [finite]

/-- The site of a shift is that of an addition or a subtraction. A subtraction looks
for the constant on the right only. -/
theorem shiftSite_eq_some {site : FusionSite} {signed : Tensor α → Tensor α}
    (chosen : shiftSite graph id = some (site, signed)) :
    ∃ node commutative, graph.node id = some node ∧
      (node.kind = .add ∨ node.kind = .subtract) ∧
      graph.fusionSite id commutative = some site := by
  obtain ⟨node, found, rest⟩ := Option.bind_eq_some_iff.mp chosen
  split at rest
  · rename_i kind
    obtain ⟨_, chosenHere, same⟩ := Option.map_eq_some_iff.mp rest
    obtain ⟨rfl, -⟩ := Prod.mk.inj same
    exact ⟨node, true, found, .inl kind, chosenHere⟩
  · rename_i kind
    obtain ⟨_, chosenHere, same⟩ := Option.map_eq_some_iff.mp rest
    obtain ⟨rfl, -⟩ := Prod.mk.inj same
    exact ⟨node, false, found, .inr kind, chosenHere⟩
  · cases rest

/-- An edit of output bounds, offered where a range and a constant are read. -/
def Proper (edit : Graph α → NodeId → Option (FusionEdit α)) : Prop :=
  ∀ graph id site change, edit graph id = some (site, change) →
    site.operation = id ∧ graph.Fuses site ∧ ∀ range edited, change range = some edited →
      edited.inputLow = range.inputLow ∧ edited.inputHigh = range.inputHigh

/-- Scaling is offered only where a range and a constant are multiplied, and changes
no input bound. -/
theorem scaleEdit_proper : Proper (scaleEdit : Graph α → NodeId → Option (FusionEdit α)) := by
  intro graph id site change offered
  obtain ⟨chosen, found, rest⟩ := Option.bind_eq_some_iff.mp offered
  obtain ⟨scale, -, rest⟩ := Option.bind_eq_some_iff.mp rest
  split at rest
  · obtain ⟨rfl, rfl⟩ := Prod.mk.inj (Option.some.inj rest)
    obtain ⟨operation, fuses⟩ := Graph.fuses_of_fusionSite found
    exact ⟨operation, fuses, fun _ _ mapped => QuantRange.inputs_mapOutput mapped⟩
  · cases rest

/-- Shifting is offered only where a constant is added to a range or subtracted from
it, and changes no input bound. -/
theorem shiftEdit_proper : Proper (shiftEdit : Graph α → NodeId → Option (FusionEdit α)) := by
  intro graph id site change offered
  obtain ⟨⟨chosen, signed⟩, found, rest⟩ := Option.bind_eq_some_iff.mp offered
  obtain ⟨shift, -, rest⟩ := Option.bind_eq_some_iff.mp rest
  split at rest
  · obtain ⟨rfl, rfl⟩ := Prod.mk.inj (Option.some.inj rest)
    obtain ⟨_, _, -, -, here⟩ := shiftSite_eq_some found
    obtain ⟨operation, fuses⟩ := Graph.fuses_of_fusionSite here
    exact ⟨operation, fuses, fun _ _ mapped => QuantRange.inputs_mapOutput mapped⟩
  · cases rest

/-- Fusing by a proper edit has a verdict everywhere. Where no edit is offered the
answer is that nothing changed. -/
theorem Proper.verdict {edit : Graph α → NodeId → Option (FusionEdit α)} (proper : Proper edit)
    (sound : graph.Sound) (id : NodeId) :
    Pass.Verdict (fun graph => graph) (fuseBy edit id) graph := by
  cases offered : edit graph id with
  | none => exact .declines (by simp [fuseBy, offered])
  | some chosen =>
    obtain ⟨site, change⟩ := chosen
    obtain ⟨-, fuses, keeps⟩ := proper graph id site change offered
    have same : fuseBy edit id graph = fuseInto site change graph := by simp [fuseBy, offered]
    cases fuses.verdict sound keeps with
    | changes applied soundAfter fewer inherits =>
      exact .changes (same.trans applied) soundAfter fewer inherits
    | declines applied => exact .declines (same.trans applied)
    | reports applied recoverable => exact .reports (same.trans applied) recoverable
    | aborts applied grave large => exact .aborts (same.trans applied) grave large

/-- A fusion that makes a change has a range to offer. The change is made for the
range that was offered and for no other. -/
theorem offer_of_fuseBy {edit : Graph α → NodeId → Option (FusionEdit α)} {after : Graph α}
    (applied : fuseBy edit id graph = (.ok true, after)) :
    ∃ site change offer, edit graph id = some (site, change) ∧
      fusedRange graph site change = .ok (some offer) := by
  unfold fuseBy at applied
  split at applied
  · cases applied
  · rename_i site change offered
    rw [fuseInto, read_bind] at applied
    rcases found : fusedRange graph site change with failure | _ | offer
    · cases (lift_bind_of_error found _ _).symm.trans applied
    · rw [lift_bind_of_ok found] at applied
      cases applied
    · exact ⟨site, change, offer, offered, found⟩

/-- A fusion that makes a change puts the range that it has to offer in a new place.
The place is the next one of the arena, and the name that of the operation. -/
theorem Proper.rangeAt {edit : Graph α → NodeId → Option (FusionEdit α)} (proper : Proper edit)
    (sound : graph.Sound) {after : Graph α} (applied : fuseBy edit id graph = (.ok true, after)) :
    ∃ site change name source range, edit graph id = some (site, change) ∧
      fusedRange graph site change = .ok (some (name, source, range)) ∧
      after.RangeAt graph.arena.length name source range := by
  obtain ⟨site, change, ⟨name, source, range⟩, offered, found⟩ := offer_of_fuseBy applied
  obtain ⟨-, fuses, keeps⟩ := proper graph id site change offered
  have fusible := fuses.fusible_of_offer sound keeps found
  obtain ⟨_, _, -, fused, -, -, left⟩ := fusible.fuseInto_eq sound fuses found
  have again : fuseBy edit id graph = fuseInto site change graph := by simp [fuseBy, offered]
  obtain rfl := (Prod.mk.inj ((again.trans fused).symm.trans applied)).2
  exact ⟨site, change, _, _, _, offered, found, Graph.rangeAt_successor left⟩

/-- Fusing by a proper edit answers what looking for the range to offer comes to.
Once there is a range to offer, its installation cannot fail. -/
theorem Proper.answer_fuseBy {edit : Graph α → NodeId → Option (FusionEdit α)} (proper : Proper edit)
    (sound : graph.Sound) {chosen : FusionEdit α} (offered : edit graph id = some chosen) :
    (fuseBy edit id graph).1 = (fusedRange graph chosen.1 chosen.2).map Option.isSome := by
  obtain ⟨site, change⟩ := chosen
  have start : fuseBy edit id graph = fuseInto site change graph := by simp [fuseBy, offered]
  obtain ⟨-, fuses, keeps⟩ := proper graph id site change offered
  rw [start]
  rcases found : fusedRange graph site change with failure | _ | ⟨name, source, range⟩
  · rw [Graph.fuseInto_of_error found]
    rfl
  · rw [Graph.fuseInto_of_none found]
    rfl
  · have fusible := fuses.fusible_of_offer sound keeps found
    obtain ⟨_, after, -, applied, -⟩ := fusible.fuseInto_eq sound fuses found
    rw [applied]
    rfl

/-- A pass that fuses by a proper edit is reliable. The three properties follow from
the verdict, from the answer and from the site. -/
theorem Proper.reliable {edit : Graph α → NodeId → Option (FusionEdit α)} (proper : Proper edit)
    {pass : Pass α} (applies : ∀ id, pass.apply id = Progress.onGraph (fuseBy edit id))
    (live : ∀ graph id, pass.admits graph id = true → ∃ node, graph.node id = some node)
    (applicable : ∀ graph id, pass.admits graph id = true → pass.isApplicable graph = true) :
    pass.Reliable where
  verdict progress id sound _ := by
    rw [applies]
    exact (proper.verdict sound id).onGraph
  fewer progress id after sound applied := by
    rw [applies] at applied
    exact (proper.verdict sound id).onGraph.fewer_of_changed applied
  answer id graph first second := by rw [applies]; rfl
  live := live
  applicable := applicable

/-- The scaling admits multiplications of a range by a constant. The constant may
stand on either side. -/
theorem multiplication_of_admits (admitted : (scaleFusion : Pass α).admits graph id = true) :
    ∃ node site, graph.node id = some node ∧ node.kind = .multiply ∧
      graph.fusionSite id true = some site := by
  cases found : graph.node id with
  | none => simp [scaleFusion, found] at admitted
  | some node =>
    obtain ⟨kind, site, chosen⟩ : node.kind = .multiply ∧
        ∃ site, graph.fusionSite id true = some site := by
      simpa [scaleFusion, found, Option.isSome_iff_exists] using admitted
    exact ⟨node, site, rfl, kind, chosen⟩

/-- Applying the multiply fusion is the general fusion lifted to the graph of the
run. -/
theorem scaleFusion_apply (id : NodeId) :
    (scaleFusion : Pass α).apply id = Progress.onGraph (fuseBy scaleEdit id) :=
  congrArg Progress.onGraph (fuseScale_eq id)

/-- Applying the add fusion is the general fusion lifted to the graph of the run. -/
theorem shiftFusion_apply (id : NodeId) :
    (shiftFusion : Pass α).apply id = Progress.onGraph (fuseBy shiftEdit id) :=
  congrArg Progress.onGraph (fuseShift_eq id)

/-- The multiply fusion is reliable. -/
theorem scaleFusion_reliable : (scaleFusion : Pass α).Reliable := by
  refine scaleEdit_proper.reliable scaleFusion_apply ?_ ?_
  · intro graph id admitted
    obtain ⟨node, _, found, -, -⟩ := multiplication_of_admits admitted
    exact ⟨node, found⟩
  · intro graph id admitted
    obtain ⟨node, site, found, kind, chosen⟩ := multiplication_of_admits admitted
    have products := Graph.hasKind_of_node found
    rw [kind] at products
    exact Bool.and_eq_true_iff.mpr ⟨Graph.hasKind_of_fusionSite chosen, products⟩

/-- The add fusion is reliable, as the general fusion is for every proper edit. -/
theorem shiftFusion_reliable : (shiftFusion : Pass α).Reliable := by
  refine shiftEdit_proper.reliable shiftFusion_apply ?_ ?_
  · intro graph id admitted
    obtain ⟨⟨site, signed⟩, chosen⟩ := Option.isSome_iff_exists.mp admitted
    obtain ⟨node, _, found, -, -⟩ := shiftSite_eq_some chosen
    exact ⟨node, found⟩
  · intro graph id admitted
    obtain ⟨⟨site, signed⟩, chosen⟩ := Option.isSome_iff_exists.mp admitted
    obtain ⟨node, commutative, found, kind, here⟩ := shiftSite_eq_some chosen
    have present := Graph.hasKind_of_node found
    refine Bool.and_eq_true_iff.mpr
      ⟨Graph.hasKind_of_fusionSite here, Bool.or_eq_true_iff.mpr ?_⟩
    rcases kind with sum | difference
    · exact .inl (sum ▸ present)
    · exact .inr (difference ▸ present)

end Passes

end RangeFold
