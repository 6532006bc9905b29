import RangeFold.Proofs.Graph.Checks
import RangeFold.Proofs.Graph.Clearing
import RangeFold.Proofs.Graph.OrderMemory
import RangeFold.Proofs.Pass.Verdicts

/-!
# What pruning removes

Pruning removes the live nodes that no result depends on, entries apart, and no others. A node
that only reads the value of a result goes like any other. What is left has lost the removed
readers and nothing else, so there is nothing left to prune.

The nodes go in the order that the graph has remembered, if it remembers one.
-/

namespace RangeFold

open Relation

variable {α : Type}

/-- The node without the readers that are gone. -/
def Node.withoutReaders (gone : List NodeId) (node : Node α) : Node α :=
  { node with outputs := node.outputs.map fun slot =>
      { slot with consumers := slot.consumers.filter fun reader => reader.node ∉ gone } }

/-- Striking removed readers out of every list is what pruning leaves of a node. -/
theorem Node.relist_eq_withoutReaders (gone : List NodeId) (id : NodeId) :
    (Node.relist (fun _ readers => readers.filter fun reader => reader.node ∉ gone) id :
      Node α → Node α) = Node.withoutReaders gone := by
  funext node
  have outputs : node.outputs.mapIdx (fun _ slot =>
      { slot with consumers := slot.consumers.filter fun reader => reader.node ∉ gone }) =
      (node.withoutReaders gone).outputs := by
    refine List.ext_getElem? fun slot => ?_
    rw [List.getElem?_mapIdx, Node.withoutReaders, List.getElem?_map]
  rw [Node.relist, outputs]
  rfl

namespace Graph

variable {graph : Graph α}

/-- Some result is the node or depends on it. -/
def Serves (graph : Graph α) (id : NodeId) : Prop :=
  ∃ goal node, graph.node goal = some node ∧ node.kind = .result ∧ ReflTransGen graph.Feeds id goal

/-- The second graph is the first one without the nodes that are dead in it: those that are
neither entries nor of use to a result. -/
structure Prunes (graph after : Graph α) (dead : List NodeId) : Prop where
  once : dead.Nodup
  useless : ∀ id, id ∈ dead ↔
    ∃ node, graph.node id = some node ∧ node.kind ≠ .parameter ∧ ¬ graph.Serves id
  node : ∀ id, after.node id =
    if id ∈ dead then none else (graph.node id).map (Node.withoutReaders dead)
  named : ∀ name id, after.findName name = some id ↔ graph.findName name = some id ∧ id ∉ dead
  parameters : after.parameters = graph.parameters
  results : after.results = graph.results
  live : after.live + dead.length = graph.live

/-- The dead nodes are those that were live and are gone. Pruning adds no node, so
this describes them. -/
theorem Prunes.mem_iff {after : Graph α} {dead : List NodeId} (prunes : graph.Prunes after dead)
    {id : NodeId} : id ∈ dead ↔ (∃ node, graph.node id = some node) ∧ after.node id = none := by
  rw [prunes.node]
  constructor
  · intro useless
    obtain ⟨node, found, -⟩ := (prunes.useless id).mp useless
    exact ⟨⟨node, found⟩, if_pos useless⟩
  · rintro ⟨⟨node, found⟩, gone⟩
    by_contra stays
    simp [stays, found] at gone

variable [Arithmetic α]

/-- An entry reads nothing, so no other node is needed for its sake. A path to it
has no edges. -/
theorem Sound.eq_of_path_to_parameter (sound : graph.Sound) {id goal : NodeId} {node : Node α}
    (found : graph.node goal = some node) (entry : node.kind = .parameter)
    (path : ReflTransGen graph.Feeds id goal) : id = goal := by
  rcases path.cases_tail with same | ⟨producer, -, input, slot, again, foundAgain, placed⟩
  · exact same.symm
  · obtain rfl := Option.some.inj (found.symm.trans foundAgain)
    exact absurd entry (sound.not_parameter_of_reads found (List.mem_of_getElem? placed))

/-- A live node is needed if it is an entry or serves a result. To serve is to lie
on a path to a result. -/
theorem Sound.mem_needed_iff_serves (sound : graph.Sound) {id : NodeId} {node : Node α}
    (found : graph.node id = some node) :
    id ∈ graph.needed ↔ node.kind = .parameter ∨ graph.Serves id := by
  rw [mem_needed_iff]
  constructor
  · rintro ⟨goal, exit | entry, path⟩
    · obtain ⟨last, foundLast, kind⟩ := (sound.indexed.results goal).mp exit
      exact .inr ⟨goal, last, foundLast, kind, path⟩
    · obtain ⟨last, foundLast, kind⟩ := (sound.indexed.parameters goal).mp entry
      obtain rfl := sound.eq_of_path_to_parameter foundLast kind path
      obtain rfl := Option.some.inj (found.symm.trans foundLast)
      exact .inl kind
  · rintro (entry | ⟨goal, last, foundLast, kind, path⟩)
    · exact ⟨id, .inr ((sound.indexed.parameters id).mpr ⟨node, found, entry⟩), .refl⟩
    · exact ⟨goal, .inl ((sound.indexed.results goal).mpr ⟨last, foundLast, kind⟩), path⟩

/-- Pruning a sound graph takes the nodes that are not needed. All parts of the
description are those of clearing a set that nothing left reads. -/
theorem Sound.prunes (sound : graph.Sound) : graph.Prunes graph.pruned graph.unneeded where
  once := sound.clearable_unneeded.distinct
  useless id := by
    rw [sound.mem_unneeded_iff]
    constructor
    · rintro ⟨⟨node, found⟩, superfluous⟩
      rw [sound.mem_needed_iff_serves found, not_or] at superfluous
      exact ⟨node, found, superfluous⟩
    · rintro ⟨node, found, superfluous⟩
      rw [sound.mem_needed_iff_serves found, not_or]
      exact ⟨⟨node, found⟩, superfluous⟩
  node id := by
    rw [pruned, node_cleared, Node.relist_eq_withoutReaders]
  named name id := by
    obtain ⟨-, soundAfter, -⟩ := sound.prune_eq
    rw [soundAfter.indexed.findName_eq_some_iff, sound.indexed.findName_eq_some_iff, pruned,
      node_cleared]
    by_cases gone : id ∈ graph.unneeded <;> simp [gone]
  parameters := by
    rw [pruned, parameters_cleared, List.filter_eq_self]
    intro id listed
    obtain ⟨node, found, entry⟩ := (sound.indexed.parameters id).mp listed
    simp [sound.mem_unneeded_iff, (sound.mem_needed_iff_serves found).mpr (.inl entry)]
  results := by
    rw [pruned, results_cleared, List.filter_eq_self]
    intro id listed
    obtain ⟨node, found, exit⟩ := (sound.indexed.results id).mp listed
    have serves : graph.Serves id := ⟨id, node, found, exit, .refl⟩
    simp [sound.mem_unneeded_iff, (sound.mem_needed_iff_serves found).mpr (.inr serves)]
  live := sound.prune_eq.2.2

/-- Pruning succeeds and answers with the number of the nodes that it takes, with and without
a memory. When it is done there is nothing left to take. -/
theorem prune_exact (reachable : graph.Reachable) :
    ∃ dead after, graph.Prunes after dead ∧ prune graph = (.ok dead.length, after) ∧
      prune after = (.ok 0, after) ∧
      ∀ memory, OrderedGraph.Carried ⟨graph, memory⟩ →
        ∃ left, OrderedGraph.prune ⟨graph, memory⟩ = (.ok dead.length, ⟨after, left⟩) := by
  have sound := reachable.sound
  obtain ⟨done, soundAfter, -⟩ := sound.prune_eq
  refine ⟨graph.unneeded, graph.pruned, sound.prunes, done, ?_, fun memory carried => ?_⟩
  · have again := soundAfter.prune_eq.1
    rwa [pruned_of_unneeded sound.unneeded_pruned, sound.unneeded_pruned] at again
  · obtain ⟨answers, leaves⟩ := carried.trusted.faithful.prune_eq
    rw [done] at answers leaves
    have left : (OrderedGraph.prune ⟨graph, memory⟩).2.graph = graph.pruned := leaves
    refine ⟨(OrderedGraph.prune ⟨graph, memory⟩).2.remembered, ?_⟩
    exact left ▸ Attempt.eq_of_answer answers

/-- A result whose value is read, an entry that no node reads and a sum that no result depends
on, behind a node that it reads twice. -/
def litteredRequests : List (OrderedGraph.Request Rat) :=
  [.add .parameter "x" [] (vectorEntry 2),
    .add .parameter "spare" [] (vectorEntry 2),
    .add .relu "kept" [⟨0, 0⟩] Attributes.empty,
    .add .result "out" [⟨2, 0⟩] Attributes.empty,
    .add .identity "echo" [⟨3, 0⟩] Attributes.empty,
    .add .relu "idle" [⟨0, 0⟩] Attributes.empty,
    .add .add "sum" [⟨5, 0⟩, ⟨5, 0⟩] Attributes.empty,
    .order]

/-- The graph that the requests lead to, with the order it remembers. -/
def littered : OrderedGraph Rat :=
  OrderedGraph.Request.performAll litteredRequests OrderedGraph.empty

/-- The idle node, the sum and the node behind the result go in one call, and a
second call finds nothing more. The parameter that nobody reads stays. -/
theorem littered_pruned :
    littered.graph.Reachable ∧ ∃ dead after, littered.graph.Prunes after dead ∧
      prune littered.graph = (.ok 3, after) ∧ prune after = (.ok 0, after) ∧
      (OrderedGraph.prune littered).1 = .ok 3 ∧
      (∀ id ∈ [4, 5, 6], id ∈ dead) ∧ after.consumers ⟨0, 0⟩ = [⟨2, 0⟩] := by
  have carried : OrderedGraph.Carried littered := ⟨litteredRequests, rfl⟩
  have reachable := carried.trusted.reachable
  obtain ⟨dead, after, prunes, done, again, remembering⟩ := prune_exact reachable
  obtain ⟨left, ordered⟩ := remembering littered.remembered carried
  have answer : (prune littered.graph).1 = .ok 3 := by decide +kernel
  have three : dead.length = 3 := Except.ok.inj ((congrArg Prod.fst done).symm.trans answer)
  rw [three] at done ordered
  have leaves : (prune littered.graph).2 = after := congrArg Prod.snd done
  have gone : ∀ id ∈ [4, 5, 6], id ∈ dead := by
    have swept : ∀ id ∈ [4, 5, 6], (littered.graph.node id).isSome = true ∧
        ((prune littered.graph).2.node id).isNone = true := by decide +kernel
    intro id listed
    obtain ⟨before, absent⟩ := swept id listed
    rw [leaves] at absent
    exact prunes.mem_iff.mpr
      ⟨Option.isSome_iff_exists.mp before, Option.isNone_iff_eq_none.mp absent⟩
  refine ⟨reachable, dead, after, prunes, done, again, congrArg Prod.fst ordered, gone, ?_⟩
  rw [← leaves]
  decide +kernel

end Graph

end RangeFold
