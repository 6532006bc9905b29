import RangeFold.Proofs.Graph.Clearing
import RangeFold.Proofs.Graph.Rewiring
import Mathlib.Data.List.Perm.Subperm

/-!
# Substitution

A node makes way for a value of its own type that does not depend on it. No type changes, so
the types propagate at once and nothing that is checked after the first edge has moved can
fail. The value may be the node's own input, or a new node that reads only what the node
depends on.

The nodes that hung on the replaced one can then be cleared, and the new node can take over
the name: nothing else has it.
-/

namespace RangeFold

open Relation

variable {α : Type}

namespace Graph

section Names

/-- The name of the live node at a place. -/
def nameAt (graph : Graph α) (id : NodeId) : Option String := (graph.node id).map Node.name

variable {graph : Graph α} {id : NodeId}

/-- The name at an id is that of the live node there. -/
theorem nameAt_eq_some_iff {name : String} :
    graph.nameAt id = some name ↔ ∃ node, graph.node id = some node ∧ node.name = name := by
  simp [nameAt]

/-- An id has a name exactly when it is live. -/
theorem nameAt_ne_none_iff : graph.nameAt id ≠ none ↔ ∃ node, graph.node id = some node := by
  cases found : graph.node id <;> simp [nameAt, found]

/-- A name is free exactly if no live node has it. The index and the nodes can be
exchanged in every question about names. -/
theorem Indexed.findName_eq_none_iff (indexed : graph.Indexed) {name : String} :
    graph.findName name = none ↔ ∀ id, graph.nameAt id ≠ some name := by
  simp only [Graph.findName_eq_none_iff, indexed.names, ne_eq, nameAt_eq_some_iff]

/-- Live nodes have different names. An id can be recovered from its name. -/
theorem Indexed.nameAt_inj (indexed : graph.Indexed) {name : String} {first second : NodeId}
    (named : graph.nameAt first = some name) (again : graph.nameAt second = some name) :
    first = second :=
  indexed.name_unique ((indexed.names name first).mpr (nameAt_eq_some_iff.mp named))
    ((indexed.names name second).mpr (nameAt_eq_some_iff.mp again))

/-- Attaching names the next id and no other. -/
theorem nameAt_attach (node : Node α) : (graph.attach node).nameAt id =
    if id = graph.arena.length then some node.name else graph.nameAt id := by
  unfold nameAt
  split
  · rename_i new
    rw [new, node_attach_new]
    rfl
  · rename_i old
    rw [node_attach_old old, Option.map_map]
    rfl

/-- A redirection leaves every name. -/
theorem nameAt_redirect (previous target : OutputRef) (moved : List Consumer) :
    (graph.redirect previous target moved).nameAt id = graph.nameAt id := by
  simp only [nameAt, node_redirect, Option.map_map]
  rfl

/-- Clearing takes the names of the cleared ids and leaves the others. -/
theorem nameAt_cleared (ids : List NodeId) :
    (graph.cleared ids).nameAt id = if id ∈ ids then none else graph.nameAt id := by
  simp only [nameAt, node_cleared]
  split
  · rfl
  · rw [Option.map_map]
    rfl

/-- Taking a node out takes its name and leaves the others. -/
theorem nameAt_detach (other : NodeId) (name : String) :
    (graph.detach other name).nameAt id = if id = other then none else graph.nameAt id := by
  simp only [nameAt, node_detach]
  split
  · rfl
  · rw [Option.map_map]
    rfl

/-- The digits of a number tell what it is. Different attempts give different names. -/
theorem numberedName_injective (base : String) :
    Function.Injective fun index : Nat => numberedName base (index + 1) := by
  intro first second same
  have digits : Nat.toDigits 10 (first + 1) = Nat.toDigits 10 (second + 1) := by
    have written := congrArg String.toList same
    simpa [numberedName, Nat.toString_eq_ofList_toDigits] using written
  have numbers := congrArg (Nat.ofDigitChars 10 · 0) digits
  simpa only [Nat.ofDigitChars_ten_toDigits, Nat.succ_inj] using numbers

/-- As long as the base and all numbers tried are taken, the index has a name for
each of them. The names are all different, so a longer search would find more names
than there are nodes. -/
theorem le_names_length_of_taken {graph : Graph α} {base : String} {count : Nat}
    (taken : graph.findName base ≠ none)
    (all : ∀ index < count, graph.findName (numberedName base (index + 1)) ≠ none) :
    count + 1 ≤ graph.names.length := by
  let tried := base :: (List.range count).map fun index => numberedName base (index + 1)
  have distinct : tried.Nodup := by
    refine List.nodup_cons.mpr ⟨fun again => ?_,
      List.nodup_range.map (numberedName_injective base)⟩
    obtain ⟨index, -, same⟩ := List.mem_map.mp again
    have mark : "_".length = 1 := by decide
    have longer := congrArg String.length same
    rw [numberedName, String.length_append, String.length_append] at longer
    omega
  have present {name : String} (known : graph.findName name ≠ none) :
      name ∈ graph.names.map Prod.fst := by
    by_contra absent
    refine known (findName_eq_none_iff.mpr fun id listed => ?_)
    exact absent (List.mem_map.mpr ⟨(name, id), listed, rfl⟩)
  have within : tried ⊆ graph.names.map Prod.fst := by
    intro name candidate
    rcases List.mem_cons.mp candidate with rfl | numbered
    · exact present taken
    · obtain ⟨index, inside, rfl⟩ := List.mem_map.mp numbered
      exact present (all index (List.mem_range.mp inside))
  have counted := (distinct.subperm within).length_le
  simpa [tried] using counted

/-- A base that is taken gets the least positive number that makes it free: one number more is
tried than can be taken. -/
theorem uniqueName_of_taken {graph : Graph α} {base : String}
    (taken : graph.findName base ≠ none) : ∃ number, 0 < number ∧
      graph.uniqueName base = numberedName base number ∧
      graph.findName (numberedName base number) = none ∧
      ∀ smaller, 0 < smaller → smaller < number →
        graph.findName (numberedName base smaller) ≠ none := by
  rw [uniqueName, if_neg (by simpa using taken)]
  dsimp only
  rw [List.find?_map]
  cases chosen : (List.range (graph.names.length + 1)).find?
      ((fun name => (graph.findName name).isNone) ∘ fun index => numberedName base (index + 1)) with
  | none =>
    have counted := @le_names_length_of_taken α graph base (graph.names.length + 1) taken
      fun index inside => by
        simpa using List.find?_eq_none.mp chosen index (List.mem_range.mpr inside)
    omega
  | some index =>
    obtain ⟨free, -, earlier⟩ := List.find?_range_eq_some.mp chosen
    refine ⟨index + 1, index.succ_pos, rfl, by simpa using free, fun smaller positive below => ?_⟩
    obtain ⟨before, rfl⟩ : ∃ before, smaller = before + 1 := ⟨smaller - 1, by omega⟩
    simpa [Option.isSome_iff_ne_none] using earlier before (by omega)

/-- The unique name is free. The search goes through more names than the index can
have. -/
theorem findName_uniqueName (graph : Graph α) (base : String) :
    graph.findName (graph.uniqueName base) = none := by
  by_cases free : graph.findName base = none
  · simp [uniqueName, free]
  · obtain ⟨number, -, same, freed, -⟩ := uniqueName_of_taken free
    rw [same, freed]

end Names

section Roles

/-- What the live node at a place is and reads, whatever it is called. -/
def roleAt (graph : Graph α) (id : NodeId) : Option (OpKind × List OutputRef × Attributes α) :=
  (graph.node id).map fun node => (node.kind, node.inputs, node.attributes)

variable {graph : Graph α} {id : NodeId}

/-- Taking a node out ends its role and leaves the others. -/
theorem roleAt_detach (other : NodeId) (name : String) :
    (graph.detach other name).roleAt id = if id = other then none else graph.roleAt id := by
  simp only [roleAt, node_detach]
  split
  · rfl
  · rw [Option.map_map]
    rfl

/-- A new label changes no role, as there is no name in it. -/
theorem roleAt_relabel (other : NodeId) (old new : String) :
    (graph.relabel other old new).roleAt id = graph.roleAt id := by
  simp only [roleAt, node_relabel, Option.map_map]
  congr 1
  funext node
  by_cases same : id = other <;> simp [same]

/-- A node keeps its role if none of its inputs moves. A role is told by the kind,
the inputs and the attributes. -/
theorem roleAt_redirect {previous target : OutputRef} {moved : List Consumer}
    (unmoved : ∀ consumer ∈ moved, consumer.node ≠ id) :
    (graph.redirect previous target moved).roleAt id = graph.roleAt id := by
  have stays (node : Node α) : node.repoint (movedSource target moved) id = node :=
    node.repoint_eq_self _ _ fun input _ _ => if_neg fun among => unmoved ⟨id, input⟩ among rfl
  simp only [roleAt, node_redirect, Option.map_map, Function.comp_def, stays]
  rfl

/-- A node that has been renamed has the name. Also if it had the name before. -/
theorem nameAt_of_renameNode {name : String} {after : Graph α}
    (renamed : renameNode id name graph = (.ok (), after)) : after.nameAt id = some name := by
  cases found : graph.node id with
  | none =>
    rw [renameNode, Attempt.read_bind, Attempt.bind_of_error (getNode_of_none found)] at renamed
    cases (Prod.mk.inj renamed).1
  | some node =>
    rw [renameNode, Attempt.read_bind, Attempt.bind_of_ok (getNode_of_node found)] at renamed
    split at renamed
    · rename_i own
      obtain rfl := (Prod.mk.inj renamed).2
      exact nameAt_eq_some_iff.mpr ⟨node, found, own⟩
    · split at renamed
      · cases (Prod.mk.inj renamed).1
      · obtain rfl : graph.relabel id node.name name = after := (Prod.mk.inj renamed).2
        rw [nameAt, node_relabel, found]
        simp

end Roles

section Splice

/-- The graph in which the readers of a node read a value instead, without the node. -/
def spliced (graph : Graph α) (id : NodeId) (node : Node α) (target : OutputRef) : Graph α :=
  (graph.redirect ⟨id, 0⟩ target node.consumers).detach id node.name

variable {graph : Graph α} {id : NodeId} {node : Node α} {target : OutputRef}

/-- Splicing a node out takes its name and leaves the others, as its readers move
without being renamed. -/
theorem nameAt_spliced (other : NodeId) : (graph.spliced id node target).nameAt other =
    if other = id then none else graph.nameAt other := by
  rw [spliced, nameAt_detach, nameAt_redirect]

/-- Between the nodes that are left, the readers of the value alone are new. Their
edges come from the value, and no edge comes from the node that has gone. -/
theorem feeds_of_spliced {producer reader : NodeId}
    (feeds : (graph.spliced id node target).Feeds producer reader) :
    reader ≠ id ∧ (graph.Feeds producer reader ∨ producer = target.node) := by
  obtain ⟨input, slot, reads⟩ := feeds
  obtain ⟨moved, stays⟩ := reads_detach_iff.mp reads
  obtain ⟨old, readsOld, same⟩ := (reads_redirect_iff _ _ _ _).mp moved
  refine ⟨stays, ?_⟩
  unfold movedSource at same
  split at same
  · exact .inr (congrArg OutputRef.node same)
  · exact .inl ⟨input, slot, same ▸ readsOld⟩

variable [Arithmetic α]

/-- Visiting nodes whose types follow from those of their inputs changes nothing.
Nothing is put on the stack, so it empties. -/
theorem propagates_of_consistent {types : TypeAssignment} {waiting : List NodeId}
    (live : ∀ id ∈ waiting, ∃ node, graph.node id = some node)
    (consistent : ∀ id, graph.Consistent types id) : graph.Propagates types waiting types := by
  induction waiting with
  | nil => exact .done types
  | cons first rest inductionHypothesis =>
    obtain ⟨node, found⟩ := live first List.mem_cons_self
    exact .same found (consistent first node found)
      (inductionHypothesis fun other member => live other (List.mem_cons_of_mem _ member))

/-- A node that may make way for a value of its own type does so. No type changes,
hence none can fail to be inferred. -/
theorem Sound.replaceNode_eq (sound : graph.Sound)
    (replaceable : graph.Replaceable id node target) (inner : node.kind ≠ .parameter)
    (typed : graph.outputType target = graph.outputType ⟨id, 0⟩) :
    replaceNode id [target] graph = (.ok (), graph.spliced id node target) ∧
      (graph.spliced id node target).Sound ∧
      (graph.spliced id node target).live + 1 = graph.live := by
  have redirectable := replaceable.redirectable
  have soundMoved := sound.redirect redirectable typed
  have consistent (other : NodeId) :
      (graph.redirect ⟨id, 0⟩ target node.consumers).Consistent graph.storedTypes other := by
    have stored := fresh_iff_consistent.mp soundMoved.fresh other
    rwa [storedTypes_redirect] at stored
  have covers : Covers (node.consumers.map Consumer.node) node.consumers := fun _ => List.mem_map
  have live (other : NodeId) (member : other ∈ (node.consumers.map Consumer.node).reverse) :=
    redirectable.exists_node covers (List.mem_reverse.mp member)
  have propagates := propagates_of_consistent live consistent
  have stored : (graph.redirect ⟨id, 0⟩ target node.consumers).storedTypes = graph.storedTypes :=
    storedTypes_redirect
  have unchanged : graph.replaced id node target graph.storedTypes =
      graph.spliced id node target := by
    have same : (graph.redirect ⟨id, 0⟩ target node.consumers).retypedBy graph.storedTypes =
        graph.redirect ⟨id, 0⟩ target node.consumers := by
      rw [← stored, retypedBy_storedTypes]
    simp only [replaced, same, if_neg inner, spliced]
  rcases sound.replaceNode_cases replaceable with
    ⟨types, others, replacing, soundAfter⟩ | ⟨absent, _⟩
  · obtain rfl := others.eq_of_consistent consistent
    rw [unchanged] at replacing soundAfter
    refine ⟨replacing, soundAfter, ?_⟩
    obtain ⟨after, found, -⟩ := replaceable.unread sound.fresh.single graph.storedTypes
    rw [← stored, retypedBy_storedTypes] at found
    exact soundMoved.live_detach found node.name
  · exact absurd propagates (absent graph.storedTypes)

/-- A node may make way for a value that its readers do not lead to. What its
readers lead to is all that a new edge could close a cycle with. -/
theorem Sound.replaceable (sound : graph.Sound) (found : graph.node id = some node)
    (kind : node.kind ≠ .result) (other : target.node ≠ id)
    (live : ∃ slot, graph.outputSlot target = some slot)
    (apart : ∀ reader, graph.Feeds id reader → ¬ ReflTransGen graph.Feeds reader target.node) :
    graph.Replaceable id node target := by
  obtain ⟨slot, _, readers, output⟩ := sound.fresh.single.consumers found
  have reading (consumer : Consumer) (listed : consumer ∈ node.consumers) :
      graph.Reads consumer ⟨id, 0⟩ :=
    (sound.linked.listed _ slot output consumer).mp (readers ▸ listed)
  refine ⟨found, kind, other, readers ▸ sound.linked.once _ slot output, reading, live, ?_⟩
  intro consumer listed
  exact apart consumer.node ⟨consumer.input, 0, reading consumer listed⟩

end Splice

section Supersede

/-- Nodes that only the given one and one another read, each read by earlier ones only. -/
structure Hangs (graph : Graph α) (id : NodeId) (rest : List NodeId) : Prop where
  distinct : (id :: rest).Nodup
  live : ∀ other ∈ rest, ∃ node, graph.node other = some node
  closed : ∀ other ∈ rest, ∀ reader, graph.Feeds other reader → reader ∈ id :: rest
  turns : rest.Pairwise fun first second => ¬ graph.Feeds first second

variable {graph : Graph α} {id : NodeId} {node : Node α} {rest : List NodeId}

/-- What feeds a reader after a node has come fed it before, or the reader is the
new node. In the second case the producer is one of its inputs. -/
theorem feeds_attach_cases {new : Node α} {producer reader : NodeId}
    (feeds : (graph.attach new).Feeds producer reader) :
    graph.Feeds producer reader ∨
      reader = graph.arena.length ∧ ∃ source ∈ new.inputs, source.node = producer := by
  obtain ⟨input, slot, reads⟩ := feeds
  rcases reads_attach_iff.mp reads with before | ⟨fresh, listed⟩
  · exact .inl ⟨input, slot, before⟩
  · exact .inr ⟨fresh, _, List.mem_of_getElem? listed, rfl⟩

/-- The edges among the older nodes survive an attachment. -/
theorem Feeds.attach {producer reader : NodeId} (feeds : graph.Feeds producer reader)
    (new : Node α) : (graph.attach new).Feeds producer reader := by
  obtain ⟨input, slot, reads⟩ := feeds
  exact ⟨input, slot, reads_attach_iff.mpr (.inl reads)⟩

/-- Whoever leads to a new node leads through one of its inputs. So nothing that reads a node
leads to a new one whose inputs all lead to that node. -/
theorem Acyclic.apart_attach {new : Node α} (acyclic : (graph.attach new).Acyclic)
    (behind : ∀ source ∈ new.inputs, TransGen graph.Feeds source.node id) {reader : NodeId}
    (feeds : (graph.attach new).Feeds id reader) :
    ¬ ReflTransGen (graph.attach new).Feeds reader graph.arena.length := by
  have leads (source : OutputRef) (listed : source ∈ new.inputs) :
      TransGen (graph.attach new).Feeds source.node id :=
    TransGen.mono (fun _ _ feeds => feeds.attach new) _ _ (behind source listed)
  have unfed {producer : NodeId} : ¬ graph.Feeds producer graph.arena.length := by
    rintro ⟨input, slot, node, found, _⟩
    exact ne_of_node found rfl
  intro path
  rcases ReflTransGen.cases_tail path with itself | ⟨producer, before, last⟩
  · rcases feeds_attach_cases (itself ▸ feeds) with old | ⟨-, source, listed, rfl⟩
    · exact unfed old
    · exact acyclic source.node (leads source listed)
  · rcases feeds_attach_cases last with old | ⟨-, source, listed, rfl⟩
    · exact unfed old
    · exact acyclic id ((TransGen.head' feeds before).trans (leads source listed))

/-- A new node that reads none of them changes nothing about it. Its edges end at
itself. -/
theorem Hangs.attach (hangs : graph.Hangs id rest) {new : Node α}
    (apart : ∀ source ∈ new.inputs, source.node ∉ rest) : (graph.attach new).Hangs id rest := by
  have old {producer reader : NodeId} (among : producer ∈ rest)
      (feeds : (graph.attach new).Feeds producer reader) : graph.Feeds producer reader := by
    rcases feeds_attach_cases feeds with before | ⟨-, source, listed, rfl⟩
    · exact before
    · exact absurd among (apart source listed)
  refine ⟨hangs.distinct, ?_, fun other among reader feeds =>
    hangs.closed other among reader (old among feeds), ?_⟩
  · intro other among
    obtain ⟨found, live⟩ := hangs.live other among
    exact ⟨_, by rw [node_attach_old (ne_of_node live), live]; rfl⟩
  · exact hangs.turns.imp_of_mem fun among _ unread feeds => unread (old among feeds)

/-- A node that the new one does not read is as it was. Its list of readers does not
grow either. -/
theorem node_attach_unread {new : Node α} (found : graph.node id = some node)
    (apart : ∀ source ∈ new.inputs, source.node ≠ id) : (graph.attach new).node id = some node := by
  rw [node_attach_old (ne_of_node found), found, Option.map_some, node.relist_eq_self]
  intro slot output _
  have none : arrivals graph.arena.length new.inputs ⟨id, slot⟩ = [] := by
    rw [List.eq_nil_iff_forall_not_mem]
    intro consumer arrives
    exact apart _ (List.mem_of_getElem? (mem_arrivals_iff.mp arrives).2) rfl
  rw [none, List.append_nil]

/-- Once the node is gone, they can be cleared. The node was the only way on from
the first of them. -/
theorem Hangs.clearable (hangs : graph.Hangs id rest) {target : OutputRef}
    (apart : target.node ∉ rest) : (graph.spliced id node target).Clearable rest := by
  have old {producer reader : NodeId} (among : producer ∈ rest)
      (feeds : (graph.spliced id node target).Feeds producer reader) :
      reader ≠ id ∧ graph.Feeds producer reader := by
    obtain ⟨stays, before⟩ := feeds_of_spliced feeds
    exact ⟨stays, before.resolve_right fun same => apart (same ▸ among)⟩
  refine ⟨(List.nodup_cons.mp hangs.distinct).2, ?_, ?_, ?_⟩
  · intro other among
    obtain ⟨found, live⟩ := hangs.live other among
    have stays : other ≠ id := fun same => (List.nodup_cons.mp hangs.distinct).1 (same ▸ among)
    have named : (graph.spliced id node target).nameAt other = some found.name := by
      rw [nameAt_spliced, if_neg stays]
      exact nameAt_eq_some_iff.mpr ⟨found, live, rfl⟩
    obtain ⟨after, foundAfter, -⟩ := nameAt_eq_some_iff.mp named
    exact ⟨after, foundAfter⟩
  · intro other among reader feeds
    obtain ⟨stays, before⟩ := old among feeds
    exact (List.mem_cons.mp (hangs.closed other among reader before)).resolve_left stays
  · exact hangs.turns.imp_of_mem fun among _ unread feeds => unread (old among feeds).2

variable [Arithmetic α]

/-- A live node may take the name: no other node of the sound graph has it. -/
structure Heir (graph : Graph α) (id : NodeId) (name : String) : Prop where
  sound : graph.Sound
  live : graph.nameAt id ≠ none
  sole : ∀ other, graph.nameAt other = some name → other = id

/-- It may still do so when other nodes have gone. Clearing touches neither the name
nor the inputs of what is left. -/
theorem Heir.cleared {name : String} (heir : graph.Heir id name) {ids : List NodeId}
    (clearable : graph.Clearable ids) (apart : id ∉ ids) : (graph.cleared ids).Heir id name where
  sound := (heir.sound.removeEach_eq clearable).2.1
  live := by
    rw [nameAt_cleared, if_neg apart]
    exact heir.live
  sole place named := by
    rw [nameAt_cleared] at named
    split at named
    · cases named
    · exact heir.sole place named

/-- Renaming it succeeds, costs no node and changes nothing else about it. The name
is free by then, as the node that had it is gone. -/
theorem Heir.renameNode_eq {name : String} (heir : graph.Heir id name) :
    ∃ after, renameNode id name graph = (.ok (), after) ∧ after.Sound ∧
      after.live = graph.live ∧ after.roleAt id = graph.roleAt id ∧
      after.nameAt id = some name := by
  rcases renameNode_cases graph id name with ⟨failure, failed⟩ | own | ⟨node, found, free, renamed⟩
  · exfalso
    obtain ⟨node, found⟩ := nameAt_ne_none_iff.mp heir.live
    have getting := getNode_of_node found
    rw [renameNode, Attempt.read_bind, Attempt.bind_of_ok getting] at failed
    by_cases same : node.name = name
    · simp [same] at failed
    · have free : graph.findName name = none := by
        rw [heir.sound.indexed.findName_eq_none_iff]
        intro other taken
        obtain rfl := heir.sole other taken
        exact same (by simpa [nameAt, found] using taken)
      simp [same, free] at failed
  · exact ⟨graph, own, heir.sound, rfl, rfl, nameAt_of_renameNode own⟩
  · exact ⟨_, renamed, heir.sound.relabel found free, rfl, roleAt_relabel _ _ _,
      nameAt_of_renameNode renamed⟩

variable {kind : OpKind} {label : String} {inputs : List OutputRef}
  {inputTypes : List TensorType} {type : TensorType} {attributes : Attributes α}

/-- A node makes way for a new one of its type that reads what leads to it. The new one is what it
was added as and may take the name of the old one. -/
theorem Sound.supersede (sound : graph.Sound) (found : graph.node id = some node)
    (inner : node.kind ≠ .parameter) (innerToo : node.kind ≠ .result)
    (free : graph.findName label = none)
    (known : inputs.map graph.outputType = inputTypes.map some)
    (typed : inferOutputs kind label inputTypes attributes = .ok [type])
    (same : graph.outputType ⟨id, 0⟩ = some type)
    (behind : ∀ source ∈ inputs, TransGen graph.Feeds source.node id)
    (hangs : graph.Hangs id rest) (apart : ∀ source ∈ inputs, source.node ∉ rest) :
    let fresh := graph.arena.length
    let added := graph.attach (newNode kind label inputs [type] attributes)
    ∃ after, addNode kind label inputs attributes graph = (.ok fresh, added) ∧
      replaceNode id [.first fresh] added = (.ok (), after) ∧ after.Heir fresh node.name ∧
      after.live = graph.live ∧ after.Clearable rest ∧
      (∀ other, after.nameAt other =
        if other = id then none else if other = fresh then some label else graph.nameAt other) ∧
      after.roleAt fresh = some (kind, inputs, attributes) ∧
      after = added.spliced id node (.first fresh) := by
  intro fresh added
  have adding : addNode kind label inputs attributes graph = (.ok fresh, added) :=
    addNode_eq free known typed
  have soundAdded : added.Sound := by
    have kept := keeps_addNode kind label inputs attributes graph sound
    rwa [adding] at kept
  have old : id ≠ fresh := ne_of_node found
  have foundAdded : added.node id = some node :=
    node_attach_unread found fun source listed behindItself =>
      sound.acyclic id (behindItself ▸ behind source listed)
  have liveNew : added.outputSlot (.first fresh) = some ⟨type, []⟩ := outputSlot_attach_new 0
  -- With the type the same, the replacement has nothing to propagate.
  have typedNew : added.outputType (.first fresh) = added.outputType ⟨id, 0⟩ := by
    obtain ⟨slot, output⟩ := exists_outputSlot_of_outputType same
    rw [outputType_attach output, same, outputType_eq_map, liveNew]
    rfl
  have replaceable : added.Replaceable id node (.first fresh) :=
    soundAdded.replaceable foundAdded innerToo old.symm ⟨_, liveNew⟩
      fun _ feeds => soundAdded.acyclic.apart_attach behind feeds
  obtain ⟨replacing, soundAfter, counted⟩ := soundAdded.replaceNode_eq replaceable inner typedNew
  have names (other : NodeId) : (added.spliced id node (.first fresh)).nameAt other =
      if other = id then none else if other = fresh then some label else graph.nameAt other := by
    rw [nameAt_spliced, nameAt_attach]
    rfl
  have unread (consumer : Consumer) (listed : consumer ∈ node.consumers) :
      consumer.node ≠ fresh := fun same =>
    replaceable.redirectable.apart consumer listed (same ▸ .refl)
  have role : (added.spliced id node (.first fresh)).roleAt fresh =
      some (kind, inputs, attributes) := by
    rw [spliced, roleAt_detach, if_neg old.symm, roleAt_redirect unread, roleAt, node_attach_new]
    rfl
  refine ⟨_, adding, replacing, ⟨soundAfter, ?_, ?_⟩, ?_, ?_, names, role, rfl⟩
  · rw [names, if_neg old.symm, if_pos rfl]
    simp
  · intro other named
    rw [names] at named
    split at named
    · cases named
    · rename_i elsewhere
      split at named
      · assumption
      · exact absurd (sound.indexed.nameAt_inj named (nameAt_eq_some_iff.mpr ⟨node, found, rfl⟩))
          elsewhere
  · have one : added.live = graph.live + 1 := rfl
    omega
  · refine (hangs.attach apart).clearable fun among => ?_
    obtain ⟨other, liveOther⟩ := hangs.live _ among
    exact ne_of_node liveOther rfl

end Supersede

end Graph

end RangeFold
