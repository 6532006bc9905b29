import RangeFold.Proofs.Bookkeeping
import RangeFold.Proofs.Bridging

/-!
# Removing all identity nodes

A pass visits nodes from a list that was made before its first change, and each change bridges a node of
that list. Chains and trees of identity nodes shrink on the way: what a node reads at its turn need not be
what it read at the start. What does not change is where a value comes from. Every input reads, at any
time, a value on the way from what it read at the start, through identity nodes, to the first value that
is not one of an identity node. When no identity node is left, it reads the end of this way.

Identity nodes that are left can be bridged in whatever order they are visited, and bridging takes out the
node and no other. So one sweep removes them all, and a sweep that follows finds none.
-/

namespace RangeFold

open Attempt Pipeline Relation

variable {α : Type}

namespace Graph

section Origin

variable {graph : Graph α} {source next other origin : OutputRef}

/-- The producer of the first value is an identity node, which reads the second one. -/
def PassesOn (graph : Graph α) (source next : OutputRef) : Prop :=
  ∃ node, graph.node source.node = some node ∧ node.kind = .identity ∧ node.inputs[0]? = some next

/-- An identity node passes on a single value, so following identities is
deterministic. -/
theorem PassesOn.unique (passes : graph.PassesOn source next) (passesToo : graph.PassesOn source other) :
    next = other := by
  obtain ⟨node, found, -, reads⟩ := passes
  obtain ⟨again, foundAgain, -, readsToo⟩ := passesToo
  obtain rfl : node = again := Option.some.inj (found.symm.trans foundAgain)
  exact Option.some.inj (reads.symm.trans readsToo)

/-- Where a value comes from: identity nodes are followed until the producer is none. -/
structure Origin (graph : Graph α) (source origin : OutputRef) : Prop where
  path : ReflTransGen graph.PassesOn source origin
  ends : ∀ node, graph.node origin.node = some node → node.kind ≠ .identity

/-- A value comes from one origin only. Identities are followed as far as they go,
and each passes on one value. -/
theorem Origin.unique (first : graph.Origin source origin) (second : graph.Origin source other) :
    other = origin := by
  have last {start finish : OutputRef}
      (ends : ∀ node, graph.node start.node = some node → node.kind ≠ .identity)
      (path : ReflTransGen graph.PassesOn start finish) : start = finish := by
    rcases ReflTransGen.cases_head path with same | ⟨_, ⟨node, found, kind, -⟩, -⟩
    · exact same
    · exact absurd kind (ends node found)
  have single : Relator.RightUnique graph.PassesOn := fun _ _ _ passes => passes.unique
  rcases ReflTransGen.total_of_right_unique single first.path second.path with path | path
  · exact (last first.ends path).symm
  · exact last second.ends path

end Origin

/-- The identity nodes, by place. -/
def identities (graph : Graph α) : List NodeId :=
  (graph.nodes.filter fun entry => entry.2.kind == .identity).map Prod.fst

/-- All other nodes, by place. -/
def others (graph : Graph α) : List NodeId :=
  (graph.nodes.filter fun entry => !(entry.2.kind == .identity)).map Prod.fst

/-- What is left of a graph when a number of identity nodes have been bridged. -/
structure Thinned [Arithmetic α] (graph after : Graph α) (made : Nat) : Prop where
  sound : after.Sound
  counted : after.live + made = graph.live
  /-- What is left is what it was. -/
  kept : ∀ id left, after.node id = some left → ∃ node, graph.node id = some node ∧
    left.kind = node.kind ∧ left.name = node.name ∧ left.attributes = node.attributes ∧
      left.inputs.length = node.inputs.length ∧ left.outputTypes = node.outputTypes
  /-- No other node has gone. -/
  stays : ∀ id node, graph.node id = some node → node.kind ≠ .identity →
    ∃ left, after.node id = some left
  /-- Inputs read what comes to them through identity nodes. -/
  follows : ∀ consumer source, after.Reads consumer source →
    ∃ old, graph.Reads consumer old ∧ ReflTransGen graph.PassesOn old source

/-- No identity node is left. -/
def Plain (graph : Graph α) : Prop := ∀ id node, graph.node id = some node → node.kind ≠ .identity

variable [Arithmetic α] {graph middle after : Graph α} {made more : Nat}

/-- Bridging no identity leaves all of a graph. -/
theorem Thinned.refl (sound : graph.Sound) : Thinned graph graph 0 where
  sound := sound
  counted := rfl
  kept _ left leaves := ⟨left, leaves, rfl, rfl, rfl, rfl, rfl⟩
  stays _ node found _ := ⟨node, found⟩
  follows _ source reads := ⟨source, reads, .refl⟩

/-- An identity node that is left was one, and passes on what came to it. Several
identities may have been bridged in between. -/
theorem Thinned.passesOn (thinned : Thinned graph after made) {source next : OutputRef}
    (passes : after.PassesOn source next) : ReflTransGen graph.PassesOn source next := by
  obtain ⟨left, leaves, kind, reads⟩ := passes
  obtain ⟨node, found, same, -⟩ := thinned.kept _ left leaves
  obtain ⟨old, ⟨again, foundAgain, readsOld⟩, path⟩ :=
    thinned.follows ⟨source.node, 0⟩ next ⟨left, leaves, reads⟩
  obtain rfl : node = again := Option.some.inj (found.symm.trans foundAgain)
  exact .head ⟨node, found, same ▸ kind, readsOld⟩ path

/-- Bridging some identities and then others is bridging all of them. What an input
reads is followed through the first and then the second. -/
theorem Thinned.trans (first : Thinned graph middle made) (second : Thinned middle after more) :
    Thinned graph after (made + more) where
  sound := second.sound
  counted := by
    have := first.counted
    have := second.counted
    omega
  kept id left leaves := by
    obtain ⟨between, foundBetween, kind, name, attributes, inputs, types⟩ :=
      second.kept id left leaves
    obtain ⟨node, found, kindToo, nameToo, attributesToo, inputsToo, typesToo⟩ :=
      first.kept id between foundBetween
    exact ⟨node, found, kind.trans kindToo, name.trans nameToo, attributes.trans attributesToo,
      inputs.trans inputsToo, types.trans typesToo⟩
  stays id node found other := by
    obtain ⟨between, foundBetween⟩ := first.stays id node found other
    obtain ⟨again, foundAgain, kind, -⟩ := first.kept id between foundBetween
    obtain rfl : node = again := Option.some.inj (found.symm.trans foundAgain)
    exact second.stays id between foundBetween (kind ▸ other)
  follows consumer source reads := by
    obtain ⟨between, readsBetween, path⟩ := second.follows consumer source reads
    obtain ⟨old, readsOld, before⟩ := first.follows consumer between readsBetween
    exact ⟨old, readsOld, before.trans (reflTransGen_closed (fun _ _ => first.passesOn) _ _ path)⟩

/-- A graph without identity nodes is still without them when some of them were
bridged. -/
theorem Thinned.plain (thinned : Thinned graph after made) (plain : graph.Plain) : after.Plain := by
  intro id left leaves
  obtain ⟨node, found, kind, -⟩ := thinned.kept id left leaves
  exact kind ▸ plain id node found

/-- Once no identity node is left, all others and only these are there. Bridging
takes out nothing else and adds nothing. -/
theorem Thinned.live_iff (thinned : Thinned graph after made) (plain : after.Plain) (id : NodeId) :
    (∃ left, after.node id = some left) ↔ id ∈ graph.others := by
  have listed : id ∈ graph.others ↔ ∃ node, graph.node id = some node ∧ node.kind ≠ .identity := by
    simp [others, mem_nodes_iff]
  rw [listed]
  constructor
  · rintro ⟨left, leaves⟩
    obtain ⟨node, found, kind, -⟩ := thinned.kept id left leaves
    exact ⟨node, found, kind ▸ plain id left leaves⟩
  · rintro ⟨node, found, other⟩
    exact thinned.stays id node found other

/-- The places that are taken are those of the other nodes. They are listed in the
same order. -/
theorem Thinned.nodeIds_eq (thinned : Thinned graph after made) (plain : after.Plain) :
    after.nodeIds = graph.others := by
  have increasing : graph.others.Pairwise (· < ·) :=
    graph.nodeIds_increasing.sublist (List.filter_sublist.map Prod.fst)
  refine List.Perm.eq_of_pairwise (fun _ _ _ _ less more => absurd more (Nat.lt_asymm less))
    after.nodeIds_increasing increasing ?_
  rw [List.perm_ext_iff_of_nodup after.nodeIds_nodup (increasing.imp Nat.ne_of_lt)]
  exact fun id => mem_nodeIds_iff.trans (thinned.live_iff plain id)

/-- So as many nodes have been bridged as there were identity nodes. The nodes
before and after are counted. -/
theorem Thinned.made_eq (thinned : Thinned graph after made) (sound : graph.Sound)
    (plain : after.Plain) : made = graph.identities.length := by
  have counted := thinned.counted
  have left := congrArg List.length (thinned.nodeIds_eq plain)
  have split := List.length_eq_length_filter_add (l := graph.nodes)
    fun entry => entry.2.kind == .identity
  rw [sound.indexed.live, thinned.sound.indexed.live] at counted
  simp only [nodeIds, others, identities, List.length_map] at left ⊢
  omega

/-- A graph without identity nodes has none to bridge: a number of bridged ones
would show in the number of nodes. -/
theorem Thinned.none (thinned : Thinned graph after made) (sound : graph.Sound)
    (plain : graph.Plain) : made = 0 := by
  rw [thinned.made_eq sound (thinned.plain plain), List.length_eq_zero_iff, identities,
    List.map_eq_nil_iff, List.filter_eq_nil_iff]
  rintro ⟨id, node⟩ listed identity
  exact plain id node (mem_nodes_iff.mp listed) (beq_iff_eq.mp identity)

/-- Bridging an identity node takes out one. Its readers come to read what it read. -/
theorem Sound.thins (sound : graph.Sound) {id : NodeId} {node : Node α}
    (found : graph.node id = some node) (kind : node.kind = .identity) :
    ∃ done after, eliminateNode id 0 graph = (.ok done, after) ∧ Thinned graph after 1 ∧
      after.node id = none := by
  have guarded := (Bool.and_eq_true_iff.mp (sound.identityElimination_changes found kind).1).2
  obtain ⟨again, source, after, foundAgain, reads, eliminated, replaceable, soundAfter, counted,
    rewired, types⟩ := sound.bridges guarded
  obtain rfl : node = again := Option.some.inj (found.symm.trans foundAgain)
  have gone {other : NodeId} {left : Node α} (leaves : after.node other = some left) : other ≠ id :=
    fun same => ((rewired.places other).mp ⟨left, leaves⟩).2 (List.mem_singleton.mpr same)
  refine ⟨_, after, eliminated, ⟨soundAfter, counted, ?_, ?_, ?_⟩,
    Option.eq_none_iff_forall_ne_some.mpr fun left leaves => gone leaves rfl⟩
  · intro other left leaves
    obtain ⟨before, foundBefore, same⟩ := types other left leaves
    obtain ⟨kinds, names, attributes, inputs, -⟩ := rewired.kept other before left foundBefore leaves
    exact ⟨before, foundBefore, kinds, names, attributes, inputs, same⟩
  · intro other before foundBefore inner
    refine (rewired.places other).mpr ⟨⟨before, foundBefore⟩, fun listed => inner ?_⟩
    obtain rfl := List.mem_singleton.mp listed
    rwa [Option.some.inj (foundBefore.symm.trans found)]
  · intro consumer value readsAfter
    by_cases moved : consumer ∈ node.consumers
    · obtain rfl := (rewired.moves consumer moved).unique readsAfter
      exact ⟨⟨id, 0⟩, replaceable.redirectable.reading consumer moved,
        .single ⟨node, found, kind, reads⟩⟩
    · exact ⟨value, ((rewired.stays consumer value moved).mp readsAfter).1, .refl⟩

end Graph

open RangeFold.Graph

namespace Pipeline

variable [Arithmetic α] {progress : Progress α}

/-- A visit leaves no identity node at the place. If there was one it has been
bridged, and one change is counted. -/
theorem visit_thins (checks : Bool) {id : NodeId} (sound : progress.graph.Sound)
    (new : progress.journal.isVisited id = false) : ∃ made after,
      visit checks identityElimination id progress = (.ok made, after) ∧
      Thinned progress.graph after.graph made ∧
      (∀ left, after.graph.node id = some left → left.kind ≠ .identity) ∧
      ∀ other, after.journal.isVisited other = true →
        other = id ∨ progress.journal.isVisited other = true := by
  rw [visit, read_bind]
  cases found : progress.graph.node id with
  | none =>
    have absent : progress.graph.contains id = false := by simp [Graph.contains, found]
    rw [absent]
    exact ⟨0, progress, rfl, .refl sound, by simp [found], fun _ known => .inr known⟩
  | some node =>
    have present : progress.graph.contains id = true := by simp [Graph.contains, found]
    rw [present, new]
    let marked : Progress α := ⟨progress.graph, progress.journal.markVisited id⟩
    have known (other : NodeId) (visited : marked.journal.isVisited other = true) :
        other = id ∨ progress.journal.isVisited other = true :=
      Journal.isVisited_markVisited.mp visited
    show ∃ made after, (if (identityElimination : Pass α).admits progress.graph id then
      applyAt checks identityElimination id else pure 0 : Attempt (Progress α) Nat) marked =
        (.ok made, after) ∧ _
    by_cases kind : node.kind = .identity
    · obtain ⟨done, left, eliminated, thinned, gone⟩ := sound.thins found kind
      have applied : (identityElimination : Pass α).apply id marked =
          (.ok true, ⟨left, marked.journal⟩) := by
        rw [identityElimination_apply, eliminated]
        rfl
      rw [if_pos (sound.identityElimination_changes found kind).1]
      refine ⟨1, _, applyAt_of_changed checks applied thinned.sound, thinned, by simp [gone], ?_⟩
      intro other visited
      rw [Journal.isVisited_recordChange] at visited
      exact known other visited
    · have refused : ¬ (identityElimination : Pass α).admits progress.graph id = true := by
        intro admitted
        obtain ⟨again, foundAgain, identity⟩ := identity_of_admits admitted
        exact kind (Option.some.inj (foundAgain.symm.trans found) ▸ identity)
      rw [if_neg refused]
      refine ⟨0, marked, rfl, .refl sound, fun left leaves => ?_, known⟩
      rwa [Option.some.inj (leaves.symm.trans found)]

/-- Visits in turn leave no identity node at any of the places. Bridging at a later
place brings back no identity at an earlier one. -/
theorem visitEach_thins (checks : Bool) {ids : List NodeId} (distinct : ids.Nodup)
    (sound : progress.graph.Sound) (new : ∀ id ∈ ids, progress.journal.isVisited id = false) :
    ∃ made after, visitEach checks identityElimination ids progress = (.ok made, after) ∧
      Thinned progress.graph after.graph made ∧
      ∀ id ∈ ids, ∀ left, after.graph.node id = some left → left.kind ≠ .identity := by
  induction ids generalizing progress with
  | nil => exact ⟨0, progress, rfl, .refl sound, by simp⟩
  | cons id rest inductionHypothesis =>
    obtain ⟨absent, distinctRest⟩ := List.nodup_cons.mp distinct
    obtain ⟨newHere, newRest⟩ := List.forall_mem_cons.mp new
    obtain ⟨made, middle, visiting, first, here, visited⟩ := visit_thins checks sound newHere
    have still : ∀ other ∈ rest, middle.journal.isVisited other = false := by
      intro other listed
      refine Bool.eq_false_iff.mpr fun known => ?_
      rcases visited other known with rfl | before
      · exact absent listed
      · simp [newRest other listed] at before
    obtain ⟨more, after, going, others, there⟩ :=
      inductionHypothesis distinctRest first.sound still
    refine ⟨made + more, after, ?_, first.trans others, List.forall_mem_cons.mpr ⟨?_, there⟩⟩
    · rw [visitEach, bind_of_ok visiting, bind_of_ok going]
      rfl
    · intro left leaves
      obtain ⟨between, foundBetween, kind, -⟩ := others.kept id left leaves
      exact kind ▸ here between foundBetween

/-- One pass of a sweep leaves no identity node, and records as many changes as it
makes. Its order lists every node that the graph had when it began. -/
theorem runPass_thins (checks : Bool) (sweep : Nat) (sound : progress.graph.Sound) : ∃ made after,
    runPass checks sweep identityElimination progress = (.ok made, after) ∧
      Thinned progress.graph after.graph made ∧ after.graph.Plain ∧
      Journal.Records "eliminate_identity" sweep made progress.journal after.journal := by
  obtain ⟨made, after, ran, thinned, plain⟩ : ∃ made after,
      runPass checks sweep identityElimination progress = (.ok made, after) ∧
        Thinned progress.graph after.graph made ∧ after.graph.Plain := by
    rw [runPass, Progress.currentGraph_bind]
    split
    · let begun : Progress α :=
        ⟨progress.graph, progress.journal.beginPass "eliminate_identity" sweep⟩
      have soundBegun : begun.graph.Sound := sound
      have single := sound.fresh.single
      have distinct : progress.graph.reverseOrder.Nodup := List.nodup_reverse.mpr
        (sound.linked.order_listing single).nodup
      obtain ⟨made, after, going, thinned, none⟩ :=
        visitEach_thins checks distinct soundBegun fun _ _ => Journal.isVisited_beginPass ..
      refine ⟨made, after, going, thinned, fun id left leaves => ?_⟩
      -- what is left was live when the pass began, so it has been visited
      obtain ⟨node, found, -⟩ := thinned.kept id left leaves
      exact none id (List.mem_reverse.mpr
        ((sound.linked.mem_order_iff single sound.acyclic).mpr ⟨node, found⟩)) left leaves
    · rename_i inapplicable
      refine ⟨0, progress, rfl, .refl sound, fun id node found kind => inapplicable ?_⟩
      show progress.graph.hasKind .identity = true
      exact kind ▸ hasKind_of_node found
  exact ⟨made, after, ran, thinned, plain,
    runPass_records (Pass.Provided.elimination : (identityElimination : Pass α).Provided).discreet ran⟩

section Sweeps

variable {passes : List (Pass α)} (sole : ∀ pass ∈ passes, pass = identityElimination)

include sole

/-- In one sweep the first pass leaves no identity node to the others. They find
nothing to do and are counted with zero. -/
theorem runSweep_thins (checks : Bool) (sweep : Nat) (sound : progress.graph.Sound) : ∃ made after,
    runSweep checks sweep passes progress = (.ok made, after) ∧
      Thinned progress.graph after.graph (tally made) ∧ (passes ≠ [] → after.graph.Plain) ∧
      Journal.Records "eliminate_identity" sweep (tally made) progress.journal after.journal := by
  induction passes generalizing progress with
  | nil => exact ⟨[], progress, rfl, .refl sound, by simp, Journal.records_none rfl⟩
  | cons pass rest inductionHypothesis =>
    obtain ⟨rfl, soleRest⟩ := List.forall_mem_cons.mp sole
    obtain ⟨made, middle, running, first, plain, recorded⟩ := runPass_thins checks sweep sound
    obtain ⟨more, after, going, others, -, recordedToo⟩ :=
      inductionHypothesis soleRest first.sound
    refine ⟨((identityElimination : Pass α).id, made) :: more, after, ?_, first.trans others,
      fun _ => others.plain plain, recorded.trans recordedToo⟩
    rw [runSweep, bind_of_ok running, bind_of_ok going]
    rfl

/-- The first sweep makes all changes. If there was anything to do a second one is
made, which finds nothing, unless the limit is reached. -/
theorem runSweeps_thins (some : passes ≠ []) (checks : Bool) (remaining done : Nat)
    (counts : List (String × Nat)) (sound : progress.graph.Sound) : ∃ totals after made,
      runSweeps checks passes remaining done counts progress = (.ok totals, after) ∧
      Thinned progress.graph after.graph made ∧ (0 < remaining → after.graph.Plain) ∧
      tally totals.counts = tally counts + made ∧
      Journal.Records "eliminate_identity" (done + 1) made progress.journal after.journal := by
  induction remaining generalizing done counts progress with
  | zero =>
    exact ⟨_, progress, 0, rfl, .refl sound, fun none => absurd none (Nat.lt_irrefl 0), rfl,
      Journal.records_none rfl⟩
  | succ remaining inductionHypothesis =>
    obtain ⟨made, middle, running, first, plain, recorded⟩ :=
      runSweep_thins sole checks (done + 1) sound
    rw [runSweeps, bind_of_ok running]
    split
    · exact ⟨_, middle, tally made, rfl, first, fun _ => plain some, tally_add made, recorded⟩
    · obtain ⟨totals, after, more, going, rest, -, counted, recordedToo⟩ :=
        inductionHypothesis (done + 1) _ first.sound
      obtain rfl : more = 0 := rest.none first.sound (plain some)
      obtain ⟨entries, changes, empty, -⟩ := recordedToo
      rw [List.length_eq_zero_iff.mp empty, List.append_nil] at changes
      exact ⟨totals, after, tally made, going, first.trans rest, fun _ => rest.plain (plain some),
        counted.trans (tally_add made), recorded.trans (Journal.records_none changes)⟩

end Sweeps

end Pipeline

section Collapse

variable [Arithmetic α] {graph : Graph α}

/-- What is left of a graph without its identity nodes. -/
structure Graph.Collapsed (graph after : Graph α) : Prop where
  /-- The other nodes are left, and only these. -/
  live : after.nodeIds = graph.others
  plain : after.Plain
  /-- They are what they were. -/
  kept : ∀ id left, after.node id = some left → ∃ node, graph.node id = some node ∧
    left.kind = node.kind ∧ left.name = node.name ∧ left.attributes = node.attributes ∧
      left.inputs.length = node.inputs.length ∧ left.outputTypes = node.outputTypes
  /-- Each of their inputs reads the one origin of what it read. -/
  reads : ∀ consumer source, graph.Reads consumer source → consumer.node ∈ graph.others →
    ∃ origin, graph.Origin source origin ∧ (∀ other, graph.Origin source other → other = origin) ∧
      after.Reads consumer origin

/-- A graph that has been thinned until no identity node is left has collapsed. What
an input reads now is the origin of what it read. -/
theorem Graph.Thinned.collapsed {after : Graph α} {made : Nat} (thinned : Thinned graph after made)
    (plain : after.Plain) : graph.Collapsed after where
  live := thinned.nodeIds_eq plain
  plain := plain
  kept := thinned.kept
  reads consumer source reads stays := by
    obtain ⟨left, leaves⟩ := (thinned.live_iff plain consumer.node).mpr stays
    obtain ⟨node, found, -, -, -, inputs, -⟩ := thinned.kept consumer.node left leaves
    obtain ⟨again, foundAgain, listed⟩ := reads
    obtain rfl : node = again := Option.some.inj (found.symm.trans foundAgain)
    have inside : consumer.input < left.inputs.length := by
      rw [inputs]
      exact (List.getElem?_eq_some_iff.mp listed).1
    have readsAfter : after.Reads consumer left.inputs[consumer.input] :=
      ⟨left, leaves, List.getElem?_eq_getElem inside⟩
    obtain ⟨old, readsOld, path⟩ := thinned.follows consumer _ readsAfter
    obtain rfl : old = source := readsOld.unique ⟨node, found, listed⟩
    have origin : graph.Origin old left.inputs[consumer.input] := by
      refine ⟨path, fun producer foundProducer => ?_⟩
      obtain ⟨slot, live⟩ := thinned.sound.linked.produced consumer _ readsAfter
      obtain ⟨still, leavesToo, -⟩ := outputSlot_eq_some_iff.mp live
      obtain ⟨before, foundBefore, kind, -⟩ := thinned.kept _ still leavesToo
      obtain rfl : producer = before := Option.some.inj (foundProducer.symm.trans foundBefore)
      exact kind ▸ plain _ still leavesToo
    exact ⟨_, origin, fun other => origin.unique, readsAfter⟩

/-- A run of a pipeline that only removes identity nodes, and does not prune. It succeeds and makes one
change for each identity node, all of them in the first sweep. What is left are the other nodes. They are
what they were, and every input of them reads the value from which what it read before comes: the one that
is reached through identity nodes at the first producer that is none. -/
theorem identities_collapse (reachable : graph.Reachable) {pipeline : Pipeline α}
    (built : pipeline.Built) (some : pipeline.passes ≠ [])
    (sole : ∀ planned ∈ pipeline.passes, planned.pass = identityElimination)
    (unpruned : pipeline.prunes = false) (journal : Journal) : ∃ stats after entries,
      pipeline.runFrom ⟨graph, journal⟩ = (.ok stats, after) ∧ graph.Collapsed after.graph ∧
      stats.totalChanges = graph.identities.length ∧
      after.journal.changes = journal.changes ++ entries ∧
      entries.length = graph.identities.length ∧
      ∀ entry ∈ entries, entry.pass = "eliminate_identity" ∧ entry.sweep = 1 := by
  have sound := reachable.sound
  have builtin : ∀ planned ∈ pipeline.passes, planned.pass.Builtin :=
    fun planned listed => sole planned listed ▸ .elimination
  obtain ⟨passes, scheduled, taking⟩ := scheduled_of_builtin builtin
  have solePasses : ∀ pass ∈ passes, pass = identityElimination := by
    intro pass member
    obtain ⟨planned, listed, rfl⟩ := mem_of_scheduled scheduled member
    exact sole planned listed
  have somePasses : passes ≠ [] := by
    obtain ⟨planned, listed⟩ := List.exists_mem_of_ne_nil pipeline.passes some
    exact List.ne_nil_of_mem (taking planned listed)
  obtain ⟨totals, swept, made, going, thinned, plain, counted, entries, changes, recorded, under⟩ :=
    @runSweeps_thins _ _ ⟨graph, journal⟩ _ solePasses somePasses pipeline.checks pipeline.maxSweeps 0
      (passes.foldl (fun counts pass => addCount pass.id 0 counts) []) sound
  have none := plain built.limited
  have exact := thinned.made_eq sound none
  have left : pipeline.finish swept.graph = swept.graph := by
    rw [finish, unpruned, if_neg Bool.false_ne_true]
  refine ⟨_, _, entries, runFrom_eq scheduled going thinned.sound, ?_, ?_, changes,
    recorded.trans exact, under⟩
  · rw [left]
    exact thinned.collapsed none
  · rw [totalChanges_eq, counted, tally_zeros, exact]
    exact Nat.zero_add _

/-- A chain of two identity nodes, read at both of its nodes, with an identity node that nothing reads and
one behind a result. -/
def echoedSession : List (Call Rat) :=
  [.add .parameter "x" [] (vectorEntry 2),
    .add .identity "first" [⟨0, 0⟩] Attributes.empty,
    .add .identity "second" [⟨1, 0⟩] Attributes.empty,
    .add .relu "rectified" [⟨2, 0⟩] Attributes.empty,
    .add .identity "spare" [⟨2, 0⟩] Attributes.empty,
    .add .add "sum" [⟨1, 0⟩, ⟨3, 0⟩] Attributes.empty,
    .add .result "out" [⟨5, 0⟩] Attributes.empty,
    .add .identity "echo" [⟨6, 0⟩] Attributes.empty,
    .add .relu "tail" [⟨7, 0⟩] Attributes.empty]

/-- The graph that the session builds. -/
def echoed : Graph Rat := Call.performAll echoedSession Graph.empty

/-- The builtin pass alone, without pruning. -/
def eliminating : Pipeline Rat := (Pipeline.empty.withPass identityElimination).withPruning false

/-- Four changes leave five nodes, and what read the second identity node of the chain reads the entry. -/
theorem echoed_collapses : echoed.Reachable ∧ eliminating.Built ∧ ∃ stats after,
    eliminating.runFrom ⟨echoed, Journal.fresh⟩ = (.ok stats, after) ∧ stats.totalChanges = 4 ∧
      (after.journal.changes.map Change.sweep) = [1, 1, 1, 1] ∧
      after.graph.nodeIds = [0, 3, 5, 6, 8] ∧ after.graph.Reads ⟨3, 0⟩ ⟨0, 0⟩ := by
  have reachable : echoed.Reachable := ⟨echoedSession, rfl⟩
  have built : eliminating.Built := .withPruning (.withPassAt .empty .elimination _) false
  have sole : ∀ planned ∈ eliminating.passes, planned.pass = identityElimination :=
    fun planned listed => List.mem_singleton.mp listed ▸ rfl
  obtain ⟨stats, after, entries, ran, collapsed, total, recorded, counted, under⟩ :=
    identities_collapse reachable built (List.cons_ne_nil _ _) sole rfl Journal.fresh
  have four : echoed.identities.length = 4 := by decide +kernel
  have passes {id : NodeId} {next : OutputRef}
      (described : (echoed.node id).map (fun node => (node.kind, node.inputs[0]?)) =
        some (.identity, some next)) : echoed.PassesOn ⟨id, 0⟩ next := by
    obtain ⟨node, found, same⟩ := Option.map_eq_some_iff.mp described
    obtain ⟨kind, reads⟩ := Prod.mk.inj same
    exact ⟨node, found, kind, reads⟩
  have first : echoed.PassesOn ⟨2, 0⟩ ⟨1, 0⟩ := passes (by decide +kernel)
  have second : echoed.PassesOn ⟨1, 0⟩ ⟨0, 0⟩ := passes (by decide +kernel)
  have entry : echoed.Origin ⟨2, 0⟩ ⟨0, 0⟩ := by
    refine ⟨.head first (.single second), fun node found => ?_⟩
    have kind := congrArg (Option.map Node.kind) found
    rw [(by decide +kernel : (echoed.node 0).map Node.kind = some .parameter)] at kind
    simp [← Option.some.inj kind]
  have reads : echoed.Reads ⟨3, 0⟩ ⟨2, 0⟩ :=
    reachable.sound.linked.mem_consumers_iff.mp (by decide +kernel)
  obtain ⟨origin, -, unique, readsAfter⟩ :=
    collapsed.reads ⟨3, 0⟩ ⟨2, 0⟩ reads (by decide +kernel)
  have sweeps : entries.map Change.sweep = List.replicate 4 1 :=
    List.eq_replicate_iff.mpr ⟨by rw [List.length_map, counted, four],
      List.forall_mem_map.mpr fun change listed => (under change listed).2⟩
  refine ⟨reachable, built, stats, after, ran, total.trans four, ?_, ?_, ?_⟩
  · rw [recorded]
    exact sweeps
  · rw [collapsed.live]
    decide +kernel
  · rwa [unique _ entry]

end Collapse

end RangeFold
