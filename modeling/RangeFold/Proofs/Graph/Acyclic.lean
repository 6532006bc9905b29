import RangeFold.Proofs.Graph.Redirection
import RangeFold.Proofs.Graph.Paths
import Mathlib.Data.Finset.Card

/-!
# Graphs without cycles

Which edges may be added without closing a cycle, and how far a node of an acyclic
graph can be from the end of all paths. The second is counted in nodes: every step
along an edge leaves fewer nodes ahead, and no node has itself ahead.
-/

namespace RangeFold

open Relation

/-- Edges into new readers of one node close no cycle unless the node depends on one of
those readers already. -/
theorem transGen_of_added {edge added : NodeId → NodeId → Prop} {target : NodeId}
    {readers : NodeId → Prop}
    (split : ∀ first second, added first second →
      edge first second ∨ (first = target ∧ readers second))
    (apart : ∀ reader, readers reader → ¬ ReflTransGen edge reader target)
    {start goal : NodeId} (path : TransGen added start goal) :
    TransGen edge start goal ∨
      (ReflTransGen edge start target ∧ ∃ reader, readers reader ∧ ReflTransGen edge reader goal) := by
  induction path with
  | single step =>
    rcases split _ _ step with old | ⟨rfl, new⟩
    · exact Or.inl (TransGen.single old)
    · exact Or.inr ⟨ReflTransGen.refl, _, new, ReflTransGen.refl⟩
  | tail _ step inductionHypothesis =>
    rcases split _ _ step with old | ⟨rfl, new⟩
    · rcases inductionHypothesis with direct | ⟨before, reader, reads, after⟩
      · exact Or.inl (TransGen.tail direct old)
      · exact Or.inr ⟨before, reader, reads, after.tail old⟩
    · rcases inductionHypothesis with direct | ⟨_, reader, reads, after⟩
      · exact Or.inr ⟨direct.to_reflTransGen, _, new, ReflTransGen.refl⟩
      · exact absurd after (apart reader reads)

/-- The number of places that lie ahead of a place along edges. -/
noncomputable def ahead (edge : NodeId → NodeId → Prop) (places : Nat) (id : NodeId) : Nat :=
  open Classical in ((Finset.range places).filter fun goal => TransGen edge id goal).card

section Ahead

variable {edge : NodeId → NodeId → Prop} {places : Nat}

/-- Every step along an edge leaves fewer places ahead. Whatever lies ahead of the
second end lies ahead of the first, and the second end itself does too. -/
theorem ahead_lt (acyclic : ∀ id, ¬ TransGen edge id id)
    (inside : ∀ first second, edge first second → second < places) {first second : NodeId}
    (step : edge first second) : ahead edge places second < ahead edge places first := by
  classical
  apply Finset.card_lt_card
  rw [Finset.ssubset_iff_of_subset]
  · refine ⟨second, ?_, ?_⟩
    · simpa using ⟨inside first second step, TransGen.single step⟩
    · simp [acyclic second]
  · intro goal member
    simp only [Finset.mem_filter] at member ⊢
    exact ⟨member.1, TransGen.head step member.2⟩

/-- A place is not ahead of itself. So the count of places ahead is a measure that
fits into the arena. -/
theorem ahead_lt_places (acyclic : ∀ id, ¬ TransGen edge id id) {id : NodeId}
    (inside : id < places) : ahead edge places id < places := by
  classical
  have fewer : ahead edge places id < (Finset.range places).card := by
    apply Finset.card_lt_card
    rw [Finset.ssubset_iff_of_subset (Finset.filter_subset _ _)]
    exact ⟨id, by simpa using inside, by simp [acyclic id]⟩
  simpa using fewer

end Ahead

variable {α : Type}

namespace Graph

/-- Without an edge too many, a graph stays acyclic. Removals, renamings and
retypings are all of this kind. -/
theorem Acyclic.of_feeds {graph after : Graph α} (acyclic : graph.Acyclic)
    (fewer : ∀ producer reader, after.Feeds producer reader → graph.Feeds producer reader) :
    after.Acyclic := by
  intro id cycle
  exact acyclic id (TransGen.mono fewer id id cycle)

/-- An edge of the rearranged graph is an old one or leads from the new value to a
moved reader. Only the second kind can be part of a new cycle. -/
theorem Feeds.of_redirect {graph : Graph α} {previous target : OutputRef} {moved : List Consumer}
    {producer reader : NodeId}
    (feeds : (graph.redirect previous target moved).Feeds producer reader) :
    graph.Feeds producer reader ∨
      (producer = target.node ∧ ∃ consumer ∈ moved, consumer.node = reader) := by
  obtain ⟨input, slot, reads⟩ := feeds
  obtain ⟨old, readsOld, same⟩ := (graph.reads_redirect_iff previous target moved).mp reads
  by_cases moves : (⟨reader, input⟩ : Consumer) ∈ moved
  · rw [movedSource, if_pos moves] at same
    exact Or.inr ⟨congrArg OutputRef.node same, _, moves, rfl⟩
  · rw [movedSource, if_neg moves] at same
    subst same
    exact Or.inl ⟨input, slot, readsOld⟩

/-- Moving inputs onto a value that none of their nodes feeds closes no cycle. A
cycle would have to use a new edge, and the rest of it would lead from the moved
reader to the value. -/
theorem Acyclic.redirect {graph : Graph α} (acyclic : graph.Acyclic) {previous target : OutputRef}
    {moved : List Consumer}
    (apart : ∀ consumer ∈ moved, ¬ ReflTransGen graph.Feeds consumer.node target.node) :
    (graph.redirect previous target moved).Acyclic := by
  have split (producer reader : NodeId)
      (feeds : (graph.redirect previous target moved).Feeds producer reader) := feeds.of_redirect
  have unreached (reader : NodeId) (reads : ∃ consumer ∈ moved, consumer.node = reader) :
      ¬ ReflTransGen graph.Feeds reader target.node := by
    obtain ⟨consumer, member, rfl⟩ := reads
    exact apart consumer member
  intro id cycle
  rcases transGen_of_added split unreached cycle with direct | ⟨before, reader, reads, after⟩
  · exact acyclic id direct
  · exact unreached reader reads (after.trans before)

/-- A node that is read is live. So is the node that reads it, and both are places
of the arena. -/
theorem Linked.live_of_feeds {graph : Graph α} (linked : graph.Linked) {producer reader : NodeId}
    (feeds : graph.Feeds producer reader) :
    producer < graph.arena.length ∧ reader < graph.arena.length := by
  obtain ⟨input, slot, reads⟩ := feeds
  obtain ⟨output, live⟩ := linked.produced _ _ reads
  obtain ⟨node, found, _⟩ := outputSlot_eq_some_iff.mp live
  obtain ⟨reader, foundReader, _⟩ := reads
  exact ⟨lt_of_node found, lt_of_node foundReader⟩

section Behind

variable {graph : Graph α}

/-- The number of places that lie behind a place. -/
noncomputable def behind (graph : Graph α) (id : NodeId) : Nat :=
  ahead (Function.swap graph.Feeds) graph.arena.length id

/-- In an acyclic linked graph a reader has strictly more nodes behind it than what
it reads. This is the measure that ends every walk along the edges. -/
theorem behind_lt (linked : graph.Linked) (acyclic : graph.Acyclic) {producer reader : NodeId}
    (feeds : graph.Feeds producer reader) : graph.behind producer < graph.behind reader := by
  apply ahead_lt
  · intro id cycle
    exact acyclic id (Relation.transGen_swap.mp cycle)
  · intro first second step
    exact (linked.live_of_feeds step).1
  · exact feeds

/-- A live node of an acyclic graph is not behind itself, so the nodes behind it
cannot fill the arena. -/
theorem behind_lt_length (acyclic : graph.Acyclic) {id : NodeId} {node : Node α}
    (found : graph.node id = some node) : graph.behind id < graph.arena.length := by
  apply ahead_lt_places
  · intro other cycle
    exact acyclic other (Relation.transGen_swap.mp cycle)
  · exact lt_of_node found

/-- Along the edges of an acyclic graph one does not go back forever. Values and
types are found by induction along it. -/
theorem Acyclic.wellFounded (acyclic : graph.Acyclic) (linked : graph.Linked) :
    WellFounded graph.Feeds :=
  Subrelation.wf (fun feeds => behind_lt linked acyclic feeds) (measure graph.behind).wf

/-- Nor does one go on forever. This is the direction in which types are propagated. -/
theorem Acyclic.wellFounded_swap (acyclic : graph.Acyclic) (linked : graph.Linked) :
    WellFounded (Function.swap graph.Feeds) :=
  Subrelation.wf
    (fun feeds => ahead_lt acyclic (fun _ _ step => (linked.live_of_feeds step).2) feeds)
    (measure (ahead graph.Feeds graph.arena.length)).wf

end Behind

end Graph

end RangeFold
