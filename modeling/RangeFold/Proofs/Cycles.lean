import RangeFold.Proofs.Typing.Faults
import RangeFold.Proofs.Graph.Rewiring
import RangeFold.Proofs.Refusal

/-!
# Cycle checks

Before an edge moves, a search looks for a path that the new edge would close. The search
sees the graph as it is: it follows edges that are about to go and does not follow those
that are about to come. This neither hides a cycle nor invents one.

No cycle is missed, because a cycle through several new edges contains a path of old edges
from one moved reader back to the new value. None is invented, because a path that used an
edge about to go would lead back to the old value, which feeds the reader: in a graph
without cycles there is no such path.
-/

namespace RangeFold

open Relation

variable {α σ β γ : Type}

namespace Attempt

/-- The step fails with admitted failures only, in whatever state it is taken. -/
def FailsOnly (admitted : Failure → Prop) (step : Attempt σ β) : Prop :=
  ∀ state, RangeFold.FailsOnly admitted (step state).1

namespace FailsOnly

variable {admitted : Failure → Prop}

/-- Answering at once fails with nothing. -/
theorem answer (value : β) : FailsOnly admitted (pure value : Attempt σ β) := fun _ => .ok value

/-- Failing outright fails as admitted if the failure is. -/
theorem fail {failure : Failure} (known : admitted failure) :
    FailsOnly admitted (Attempt.fail failure : Attempt σ β) := fun _ => .error known

/-- An update fails with nothing. -/
theorem update (change : σ → σ) : FailsOnly admitted (Attempt.update change) := fun _ => .ok ()

/-- A sequence of steps fails only as its parts do. -/
theorem bind {first : Attempt σ β} {next : β → Attempt σ γ} (before : FailsOnly admitted first)
    (rest : ∀ value, FailsOnly admitted (next value)) : FailsOnly admitted (first >>= next) := by
  intro state
  rcases outcome : first state with ⟨failure | value, after⟩
  · rw [bind_of_error outcome]
    exact .error (before state failure (congrArg Prod.fst outcome))
  · rw [bind_of_ok outcome]
    exact rest value after

/-- A handler is only asked about failures of the first part. What the first part
fails with is not passed on unless the handler does so. -/
theorem orElse {first : Attempt σ β} {handler : Failure → Attempt σ β}
    (before : FailsOnly admitted first)
    (handling : ∀ failure, admitted failure → FailsOnly admitted (handler failure)) :
    FailsOnly admitted (first.orElse handler) := by
  intro state
  rcases outcome : first state with ⟨failure | value, after⟩
  · rw [orElse_of_error outcome]
    exact handling failure (before state failure (congrArg Prod.fst outcome)) after
  · rw [orElse_of_ok outcome]
    exact .ok value

/-- A loop fails only as its turns do. -/
theorem forEach {step : γ → Attempt σ Unit} (each : ∀ item, FailsOnly admitted (step item))
    (items : List γ) : FailsOnly admitted (Attempt.forEach step items) := by
  induction items with
  | nil => exact answer ()
  | cons item rest inductionHypothesis => exact bind (each item) fun _ => inductionHypothesis

end FailsOnly

end Attempt

namespace Graph

section Reports

open Attempt

/-- Looking up a node reports no cycle. -/
theorem getNode_blamesNoCycle (id : NodeId) :
    (getNode id : Attempt (Graph α) (Node α)).FailsOnly Failure.BlamesNoCycle :=
  fun graph => graph.nodeAt_blamesNoCycle id

/-- Looking up a slot reports no cycle. -/
theorem slotAt_blamesNoCycle (graph : Graph α) (source : OutputRef) :
    RangeFold.FailsOnly Failure.BlamesNoCycle (graph.slotAt source) := by
  refine .bind (graph.nodeAt_blamesNoCycle source.node) fun node => ?_
  split
  · exact .ok _
  · exact .error trivial

/-- Entering a reader reports no cycle, as it looks at one slot only. -/
theorem link_blamesNoCycle (source : OutputRef) (consumer : Consumer) :
    (link source consumer : Attempt (Graph α) Unit).FailsOnly Failure.BlamesNoCycle := by
  intro graph
  unfold link
  split
  · rename_i failure missing
    exact .error (graph.slotAt_blamesNoCycle source failure missing)
  · exact .ok ()

/-- Striking a reader out reports no cycle. -/
theorem unlink_blamesNoCycle (source : OutputRef) (consumer : Consumer) :
    (unlink source consumer : Attempt (Graph α) Unit).FailsOnly Failure.BlamesNoCycle := by
  intro graph
  unfold unlink
  split
  · rename_i failure missing
    exact .error (graph.slotAt_blamesNoCycle source failure missing)
  · split
    · exact .ok ()
    · exact .error trivial

/-- Moving one edge reports no cycle. The search for one has been made by the
caller. -/
theorem rewire_blamesNoCycle (consumer : Consumer) (source : OutputRef) :
    (rewire consumer source : Attempt (Graph α) OutputRef).FailsOnly Failure.BlamesNoCycle := by
  refine .bind (getNode_blamesNoCycle _) fun node => ?_
  split
  · exact .fail trivial
  · exact .bind (unlink_blamesNoCycle _ _) fun _ => .bind (link_blamesNoCycle _ _) fun _ =>
      .bind (.update _) fun _ => .answer _

/-- Moving a list of edges reports no cycle. -/
theorem rewireAll_blamesNoCycle (moves : List (Consumer × OutputRef)) :
    (rewireAll moves : Attempt (Graph α) (List (Consumer × OutputRef))).FailsOnly
      Failure.BlamesNoCycle := by
  induction moves with
  | nil => exact .answer _
  | cons move rest inductionHypothesis =>
    exact .bind (rewire_blamesNoCycle _ _) fun _ => .bind inductionHypothesis fun _ => .answer _

/-- Removing a node reports no cycle, but possibly a reader that is left. -/
theorem removeNode_blamesNoCycle (id : NodeId) :
    (removeNode id : Attempt (Graph α) (Node α)).FailsOnly Failure.BlamesNoCycle := by
  refine .bind (getNode_blamesNoCycle id) fun node => ?_
  split
  · exact .fail trivial
  · exact .bind (.forEach (fun _ => unlink_blamesNoCycle _ _) _) fun _ =>
      .bind (getNode_blamesNoCycle id) fun _ => .bind (.update _) fun _ => .answer _

/-- Propagating types reports no cycle: every failure of it is one of a typing rule. -/
theorem retype_blamesNoCycle [Arithmetic α] (seeds : List NodeId) :
    (retype seeds : Attempt (Graph α) Unit).FailsOnly Failure.BlamesNoCycle := by
  intro graph
  unfold retype
  split
  · rename_i failure stopped
    exact .error (TypeDraft.settle_blamesNoCycle _ _ _ _ failure stopped)
  · exact .ok ()

end Reports

section Refusal

variable {graph : Graph α}

/-- What a graph reaches from a node is the node itself and what consumer entries lead to
from it. -/
theorem Linked.reaches_iff_readers (linked : graph.Linked) {start goal : NodeId} :
    graph.reaches start goal = true ↔
      start = goal ∨
        TransGen (fun producer reader => reader ∈ graph.readers producer) start goal := by
  have edges : (fun producer reader => reader ∈ graph.readers producer) = graph.Feeds := by
    funext producer reader
    exact propext linked.mem_readers_iff
  rw [linked.reaches_iff, edges, reflTransGen_iff_eq_or_transGen, eq_comm]

/-- A graph whose inputs move onto a value gets a cycle exactly if one of their nodes leads to
the value already, along whatever edges there are now. -/
theorem Acyclic.redirect_iff (acyclic : graph.Acyclic) {previous target : OutputRef}
    {moved : List Consumer} (reading : ∀ consumer ∈ moved, graph.Reads consumer previous) :
    (graph.redirect previous target moved).Acyclic ↔
      ∀ consumer ∈ moved, ¬ ReflTransGen graph.Feeds consumer.node target.node := by
  constructor
  · intro after consumer moves path
    have feeds : graph.Feeds previous.node consumer.node :=
      ⟨consumer.input, previous.slot, reading consumer moves⟩
    -- an edge about to go starts at the old value, which the path cannot come back to
    have survives (goal : NodeId) (path : ReflTransGen graph.Feeds consumer.node goal) :
        ReflTransGen (graph.redirect previous target moved).Feeds consumer.node goal := by
      induction path with
      | refl => exact .refl
      | @tail producer reader before step inductionHypothesis =>
        obtain ⟨input, slot, reads⟩ := step
        by_cases leaves : (⟨reader, input⟩ : Consumer) ∈ moved
        · obtain rfl : previous = ⟨producer, slot⟩ := (reading _ leaves).unique reads
          exact absurd (TransGen.head' feeds before) (acyclic producer)
        · exact inductionHypothesis.tail ⟨input, slot, reads.redirect_of_not_mem leaves⟩
    have arrives : (graph.redirect previous target moved).Feeds target.node consumer.node :=
      ⟨consumer.input, target.slot, (reading consumer moves).redirect_of_mem moves⟩
    exact after target.node (TransGen.head' arrives (survives target.node path))
  · exact acyclic.redirect

variable [Arithmetic α]

/-- Past its other checks, setting an input is refused for a cycle exactly if the node reaches
the new value. -/
theorem setInput_refused_iff {id : NodeId} {node : Node α} {input : Nat} {source : OutputRef}
    {types : List TensorType} (found : graph.node id = some node)
    (inside : input < node.inputs.length) (typed : graph.typesOf node.name [source] = .ok types) :
    setInput id input source graph =
        (.error (.typing node.name (.inputCycle input source)), graph) ↔
      graph.reaches id source.node = true := by
  rw [setInput, Attempt.read_bind, Attempt.bind_of_ok (getNode_of_node found),
    if_neg (Nat.not_le_of_lt inside), Attempt.lift_bind_of_ok typed]
  by_cases cycle : graph.reaches id source.node = true
  · rw [if_pos cycle]
    exact iff_of_true rfl cycle
  · rw [if_neg cycle]
    refine iff_of_false (fun refused => ?_) cycle
    have rest : Attempt.FailsOnly Failure.BlamesNoCycle (do
        let previous ← rewire (α := α) ⟨id, input⟩ source
        (retype [id]).orElse fun failure => do
          let _ ← rewire ⟨id, input⟩ previous
          Attempt.fail failure) :=
      .bind (rewire_blamesNoCycle _ _) fun previous =>
        .orElse (retype_blamesNoCycle _) fun failure known =>
          .bind (rewire_blamesNoCycle _ _) fun _ => .fail known
    cases rest graph _ (congrArg Prod.fst refused)

omit [Arithmetic α] in
/-- The first closing move decides the last check on a replacement. All the checks
before it have passed under the hypotheses, so nothing else can refuse. -/
theorem checkReplacement_eq (single : graph.Single) {id : NodeId} {node : Node α}
    {target : OutputRef} {types : List TensorType} (found : graph.node id = some node)
    (inner : node.kind ≠ .result) (other : target.node ≠ id)
    (typed : graph.typesOf node.name [target] = .ok types) :
    graph.checkReplacement id node [target] =
      match node.consumers.find? fun consumer => graph.reaches consumer.node target.node with
      | some consumer =>
        .error (.typing (graph.displayName consumer.node) (.replacementCycle target))
      | none => .ok () := by
  have sole : node.outputs.length = 1 := single id node found
  have moves : graph.closingMove (replacementMoves node [target]) =
      (node.consumers.find? fun consumer => graph.reaches consumer.node target.node).map
        fun consumer => (consumer, target) := by
    rw [single.replacementMoves_eq found, closingMove, List.find?_map]
    rfl
  cases closing : node.consumers.find? fun consumer => graph.reaches consumer.node target.node with
  | some consumer =>
    simp [checkReplacement, inner, sole, other, typed, moves, closing]
    rfl
  | none => simp [checkReplacement, inner, sole, other, typed, moves, closing]

/-- Past its other checks, a replacement is refused for a cycle exactly if something that reads
the node reaches the new value. -/
theorem replaceNode_refused_iff (single : graph.Single) {id : NodeId} {node : Node α}
    {target : OutputRef} {types : List TensorType} (found : graph.node id = some node)
    (inner : node.kind ≠ .result) (other : target.node ≠ id)
    (typed : graph.typesOf node.name [target] = .ok types) :
    (∃ consumer ∈ node.consumers, replaceNode id [target] graph =
      (.error (.typing (graph.displayName consumer.node) (.replacementCycle target)), graph)) ↔
      ∃ consumer ∈ node.consumers, graph.reaches consumer.node target.node = true := by
  have checked := checkReplacement_eq single found inner other typed
  rw [replaceNode, Attempt.read_bind, Attempt.bind_of_ok (getNode_of_node found)]
  cases closing : node.consumers.find? fun consumer => graph.reaches consumer.node target.node with
  | some consumer =>
    rw [closing] at checked
    have listed := List.mem_of_find?_eq_some closing
    have reached := List.find?_some closing
    rw [Attempt.lift_bind_of_error checked]
    exact iff_of_true ⟨consumer, listed, rfl⟩ ⟨consumer, listed, reached⟩
  | none =>
    rw [closing] at checked
    rw [Attempt.lift_bind_of_ok checked]
    have acyclic : ¬ ∃ consumer ∈ node.consumers,
        graph.reaches consumer.node target.node = true := by
      simpa using List.find?_eq_none.mp closing
    refine iff_of_false ?_ acyclic
    rintro ⟨consumer, _, refused⟩
    have rest : Attempt.FailsOnly Failure.BlamesNoCycle (do
        let undo ← rewireAll (α := α) (replacementMoves node [target])
        (retype ((replacementMoves node [target]).map fun move => move.1.node)).orElse
          fun failure => do
            let _ ← rewireAll undo
            Attempt.fail failure
        if node.kind = .parameter then return ()
        else
          let _ ← removeNode id
          return ()) := by
      refine .bind (rewireAll_blamesNoCycle _) fun undo => .bind ?_ fun _ => ?_
      · exact .orElse (retype_blamesNoCycle _) fun failure known =>
          .bind (rewireAll_blamesNoCycle _) fun _ => .fail known
      · split
        · exact .answer ()
        · exact .bind (removeNode_blamesNoCycle id) fun _ => .answer ()
    cases rest graph _ (congrArg Prod.fst refused)

/-- The search of a graph finds what there is a path to. Once everything checked before is in
order, setting an input and replacing a node are refused for a cycle exactly if the graph with
its edges moved has one. -/
theorem cycle_checks_exact (reachable : graph.Reachable) :
    (∀ start goal, graph.reaches start goal = true ↔
      start = goal ∨
        TransGen (fun producer reader => reader ∈ graph.readers producer) start goal) ∧
    (∀ id node input previous source types, graph.node id = some node →
      node.inputs[input]? = some previous → graph.typesOf node.name [source] = .ok types →
      (setInput id input source graph =
          (.error (.typing node.name (.inputCycle input source)), graph) ↔
        ¬ (graph.redirect previous source [⟨id, input⟩]).Acyclic)) ∧
    (∀ id node outputs types, graph.node id = some node → node.kind ≠ .result →
      node.outputs.length = outputs.length → (∀ output ∈ outputs, output.node ≠ id) →
      graph.typesOf node.name outputs = .ok types → ∃ target, outputs = [target] ∧
        ((∃ consumer ∈ node.consumers, replaceNode id outputs graph =
            (.error (.typing (graph.displayName consumer.node) (.replacementCycle target)),
              graph)) ↔
          ¬ (graph.redirect ⟨id, 0⟩ target node.consumers).Acyclic)) := by
  have sound := reachable.sound
  have linked := sound.linked
  refine ⟨fun _ _ => linked.reaches_iff_readers, ?_, ?_⟩
  · intro id node input previous source types found listed typed
    have inside : input < node.inputs.length := (List.getElem?_eq_some_iff.mp listed).1
    have reading : ∀ consumer ∈ [(⟨id, input⟩ : Consumer)], graph.Reads consumer previous := by
      intro consumer moves
      rw [List.mem_singleton.mp moves]
      exact ⟨node, found, listed⟩
    rw [setInput_refused_iff found inside typed, sound.acyclic.redirect_iff reading]
    simp [linked.reaches_iff]
  · intro id node outputs types found inner counted others typed
    have single := sound.fresh.single
    obtain ⟨target, rfl⟩ : ∃ target, outputs = [target] :=
      List.length_eq_one_iff.mp (counted.symm.trans (single id node found))
    obtain ⟨slot, _, readers, live⟩ := single.consumers found
    have reading : ∀ consumer ∈ node.consumers, graph.Reads consumer ⟨id, 0⟩ := by
      intro consumer moves
      exact (linked.listed _ slot live consumer).mp (readers ▸ moves)
    refine ⟨target, rfl, ?_⟩
    rw [replaceNode_refused_iff single found inner (others target List.mem_cons_self) typed,
      sound.acyclic.redirect_iff reading]
    simp [linked.reaches_iff]

/-- A chain of two rectifiers between an entry and an exit. -/
def rectifiedSession : List (Call Rat) :=
  [.add .parameter "x" [] (vectorEntry 2),
    .add .relu "first" [⟨0, 0⟩] Attributes.empty,
    .add .relu "second" [⟨1, 0⟩] Attributes.empty,
    .add .result "out" [⟨2, 0⟩] Attributes.empty]

/-- The graph that the session builds. -/
def rectified : Graph Rat := Call.performAll rectifiedSession empty

/-- The first rectifier can neither read the second nor be replaced by it. The second may
read the entry. -/
theorem rectified_cycle_checks :
    rectified.Reachable ∧
    TransGen (fun producer reader => reader ∈ rectified.readers producer) 0 3 ∧
    (setInput 1 0 ⟨2, 0⟩ rectified =
        (.error (.typing "first" (.inputCycle 0 ⟨2, 0⟩)), rectified) ∧
      ¬ (rectified.redirect ⟨0, 0⟩ ⟨2, 0⟩ [⟨1, 0⟩]).Acyclic) ∧
    (setInput 2 0 ⟨0, 0⟩ rectified ≠
        (.error (.typing "second" (.inputCycle 0 ⟨0, 0⟩)), rectified) ∧
      (rectified.redirect ⟨1, 0⟩ ⟨0, 0⟩ [⟨2, 0⟩]).Acyclic) ∧
    (∃ consumer ∈ [(⟨2, 0⟩ : Consumer)], replaceNode 1 [⟨2, 0⟩] rectified =
        (.error (.typing (rectified.displayName consumer.node) (.replacementCycle ⟨2, 0⟩)),
          rectified)) ∧
      ¬ (rectified.redirect ⟨1, 0⟩ ⟨2, 0⟩ [⟨2, 0⟩]).Acyclic := by
  have reachable : rectified.Reachable := ⟨rectifiedSession, rfl⟩
  obtain ⟨paths, inputs, replacements⟩ := cycle_checks_exact reachable
  have single := reachable.sound.fresh.single
  have typed (name : String) (source : OutputRef)
      (live : rectified.outputType source = some ⟨.f32, [2]⟩) :
      rectified.typesOf name [source] = .ok [⟨.f32, [2]⟩] :=
    typesOf_eq_ok_iff.mpr (by rw [List.map_singleton, live]; rfl)
  obtain ⟨first, foundFirst, described⟩ := Option.map_eq_some_iff.mp
    (by decide +kernel : (rectified.node 1).map (fun node =>
      (node.kind, node.name, node.inputs, node.consumers)) =
        some (.relu, "first", [⟨0, 0⟩], [⟨2, 0⟩]))
  obtain ⟨second, foundSecond, describedSecond⟩ := Option.map_eq_some_iff.mp
    (by decide +kernel : (rectified.node 2).map (fun node => (node.name, node.inputs)) =
      some ("second", [⟨1, 0⟩]))
  simp only [Prod.mk.injEq] at described describedSecond
  obtain ⟨kind, name, reads, readers⟩ := described
  obtain ⟨nameSecond, readsSecond⟩ := describedSecond
  have inner : first.kind ≠ .result := by simp [kind]
  have other : ∀ output ∈ [(⟨2, 0⟩ : OutputRef)], output.node ≠ 1 := by simp
  have typedFirst := typed first.name ⟨2, 0⟩ (by decide +kernel)
  have typedSecond := typed second.name ⟨0, 0⟩ (by decide +kernel)
  have closing := inputs 1 first 0 ⟨0, 0⟩ ⟨2, 0⟩ _ foundFirst (by simp [reads]) typedFirst
  have opening := inputs 2 second 0 ⟨1, 0⟩ ⟨0, 0⟩ _ foundSecond (by simp [readsSecond]) typedSecond
  obtain ⟨_, same, replacing⟩ :=
    replacements 1 first [⟨2, 0⟩] _ foundFirst inner (single 1 first foundFirst) other typedFirst
  obtain rfl := List.singleton_inj.mp same
  have inside : 0 < first.inputs.length := by simp [reads]
  have insideSecond : 0 < second.inputs.length := by simp [readsSecond]
  have refused := (setInput_refused_iff foundFirst inside typedFirst).mpr (by decide +kernel)
  have admitted := mt (setInput_refused_iff foundSecond insideSecond typedSecond).mp
    (by decide +kernel)
  have unreplaced := (replaceNode_refused_iff single foundFirst inner (by simp) typedFirst).mpr
    ⟨⟨2, 0⟩, by simp [readers], by decide +kernel⟩
  have cyclic := replacing.mp unreplaced
  rw [readers] at unreplaced cyclic
  refine ⟨reachable, ((paths 0 3).mp (by decide +kernel)).resolve_left (by simp), ?_, ?_,
    unreplaced, cyclic⟩
  · exact ⟨name ▸ refused, closing.mp refused⟩
  · exact ⟨nameSecond ▸ admitted, not_not.mp (mt opening.mpr admitted)⟩

end Refusal

end Graph

end RangeFold
