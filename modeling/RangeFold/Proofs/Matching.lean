import RangeFold.Proofs.Ordering
import RangeFold.Proofs.Pattern.Laying

/-!
# What matching finds

A pattern lies at a root when every place of it lies on a live node that passes the place's tests and
places with one label lie on one node. This is said of all places at once, by their addresses. The
walk finds exactly that, although it meets the labels one after the other: it keeps the first node of
each label, and a later place that disagrees with an earlier one is the same as two places that
disagree.

The binding lists the nodes of all places in pre-order, and the labels by their first occurrences.
-/

namespace RangeFold

variable {α : Type}

/-- No label has two nodes. -/
def Agree (labelled : List (String × NodeId)) : Prop :=
  ∀ label first second, (label, first) ∈ labelled → (label, second) ∈ labelled → first = second

/-- The labels that are given, with their nodes. -/
def labelsOf (laid : List (Option String × NodeId)) : List (String × NodeId) :=
  laid.filterMap fun (label, id) => label.map (·, id)

/-- The labels of what was laid split off those of the first place. It gives one
label or none, which is why they are joined as lists and not consed. -/
theorem labelsOf_cons (label : Option String) (id : NodeId)
    (rest : List (Option String × NodeId)) :
    labelsOf ((label, id) :: rest) = (label.map (·, id)).toList ++ labelsOf rest := by
  cases label <;> rfl

/-- A label is among those given if some place that was laid bears it; places
without labels give nothing. -/
theorem mem_labelsOf_iff {laid : List (Option String × NodeId)} {label : String} {id : NodeId} :
    (label, id) ∈ labelsOf laid ↔ (some label, id) ∈ laid := by
  simp [labelsOf]

/-- Where a function tells items apart, it keeps their first occurrences. Removing
repetitions and mapping then commute. -/
theorem map_eraseDups {β γ : Type} [BEq β] [LawfulBEq β] [BEq γ] [LawfulBEq γ]
    {function : β → γ} (items : List β)
    (apart : ∀ first ∈ items, ∀ second ∈ items, function first = function second → first = second) :
    items.eraseDups.map function = (items.map function).eraseDups := by
  match items with
  | [] => rfl
  | item :: rest =>
    obtain ⟨own, others⟩ := List.forall_mem_cons.mp apart
    have same : (rest.map function).filter (fun other => !other == function item) =
        (rest.filter fun other => !other == item).map function := by
      rw [List.filter_map]
      congr 1
      refine List.filter_congr fun other listed => ?_
      have told := own other (List.mem_cons_of_mem _ listed)
      grind
    have fewer : ∀ first ∈ rest.filter (fun other => !other == item),
        ∀ second ∈ rest.filter (fun other => !other == item),
          function first = function second → first = second :=
      fun first firstListed second secondListed =>
        others first (List.mem_filter.mp firstListed).1 second
          (List.mem_cons_of_mem _ (List.mem_filter.mp secondListed).1)
    rw [List.eraseDups_cons, List.map_cons, List.map_cons, List.eraseDups_cons, same,
      map_eraseDups (rest.filter fun other => !other == item) fewer]
termination_by items.length
decreasing_by
  have shorter := List.length_filter_le (fun other => !other == item) rest
  simp only [List.length_cons]
  omega

/-- A walk that looks up each of its items succeeds if all are there and the walk over them does. -/
theorem foldlM_bind_eq_some_iff {β γ δ : Type} {find : β → Option γ} {step : δ → γ → Option δ}
    {places : List β} {start last : δ} :
    places.foldlM (fun state place => (find place).bind (step state)) start = some last ↔
      (∀ place ∈ places, (find place).isSome = true) ∧
        (places.filterMap find).foldlM step start = some last := by
  induction places generalizing start with
  | nil => simp
  | cons place rest inductionHypothesis =>
    rw [List.foldlM_cons, List.forall_mem_cons]
    cases found : find place with
    | none => simp
    | some item =>
      rw [List.filterMap_cons_some found, List.foldlM_cons]
      simp only [Option.bind_some, Option.bind_eq_bind, Option.bind_eq_some_iff,
        inductionHypothesis, Option.isSome_some, true_and]
      exact ⟨fun ⟨state, stepped, all, walked⟩ => ⟨all, state, stepped, walked⟩,
        fun ⟨all, state, stepped, walked⟩ => ⟨state, stepped, all, walked⟩⟩

namespace Binding

variable {root : NodeId} {seen : List (String × NodeId)} {matched : List NodeId}

/-- Among labels that agree, the first occurrence of a label has its node. Later
occurrences repeat it. -/
theorem lookup_eraseDups (agree : Agree seen) (label : String) (id : NodeId) :
    seen.eraseDups.lookup label = some id ↔ (label, id) ∈ seen := by
  have listed {other : NodeId} (looked : seen.eraseDups.lookup label = some other) :
      (label, other) ∈ seen := by
    obtain ⟨before, after, entries, -⟩ := List.lookup_eq_some_iff.mp looked
    rw [← List.mem_eraseDups, entries]
    exact List.mem_append_right _ List.mem_cons_self
  refine ⟨listed, fun there => ?_⟩
  cases looked : seen.eraseDups.lookup label with
  | none =>
    have absent := List.lookup_eq_none_iff.mp looked (label, id) (List.mem_eraseDups.mpr there)
    simp at absent
  | some other => rw [agree label other id (listed looked) there]

/-- A label is bound if it agrees with those seen before, and comes after them if it
is new. A place without label always agrees. -/
theorem bindLabel_eq_some_iff (agree : Agree seen) {label : Option String} {id : NodeId}
    {bound : Binding} : bindLabel ⟨root, seen.eraseDups, matched⟩ label id = some bound ↔
      Agree (seen ++ (label.map (·, id)).toList) ∧
        bound = ⟨root, (seen ++ (label.map (·, id)).toList).eraseDups, matched⟩ := by
  have joined {name : String} (only : ∀ other, (name, other) ∈ seen → other = id) :
      Agree (seen ++ [(name, id)]) := by
    intro label first second firstListed secondListed
    simp only [List.mem_append, List.mem_singleton, Prod.mk.injEq] at firstListed secondListed
    grind [Agree]
  cases label with
  | none => simp [bindLabel, agree, eq_comm]
  | some label =>
    simp only [bindLabel, get, Option.map_some, Option.toList_some]
    cases looked : seen.eraseDups.lookup label with
    | none =>
      have absent (other : NodeId) : (label, other) ∉ seen := by
        rw [← lookup_eraseDups agree, looked]
        exact Option.some_ne_none other ∘ Eq.symm
      have last : (seen ++ [(label, id)]).eraseDups = seen.eraseDups ++ [(label, id)] := by
        rw [List.eraseDups_append]
        simp [List.removeAll, absent]
        rfl
      simp [last, joined fun other there => absurd there (absent other), eq_comm]
    | some other =>
      have there := (lookup_eraseDups agree label other).mp looked
      by_cases same : other = id
      · subst same
        have known : (seen ++ [(label, other)]).eraseDups = seen.eraseDups := by
          rw [List.eraseDups_append]
          simp [List.removeAll, there]
        simp [known, joined fun another listed => agree label another other listed there, eq_comm]
      · have apart : ¬ Agree (seen ++ [(label, id)]) := fun agreeToo =>
          same (agreeToo label other id (by simp [there]) (by simp))
        simp [same, apart]

/-- Places that are laid one after the other have their labels bound by first occurrence, if all
agree. -/
theorem foldlM_add_eq_some_iff (agree : Agree seen) {items : List (Option String × NodeId)}
    {laid : Binding} : items.foldlM add ⟨root, seen.eraseDups, matched⟩ = some laid ↔
      Agree (seen ++ labelsOf items) ∧
        laid = ⟨root, (seen ++ labelsOf items).eraseDups, matched ++ items.map Prod.snd⟩ := by
  induction items generalizing seen matched with
  | nil => simp [labelsOf, agree, eq_comm, pure]
  | cons item rest inductionHypothesis =>
    obtain ⟨label, id⟩ := item
    rw [List.foldlM_cons, labelsOf_cons, ← List.append_assoc]
    simp only [add, Option.bind_eq_bind, Option.bind_eq_some_iff, Option.map_eq_some_iff,
      bindLabel_eq_some_iff agree]
    constructor
    · rintro ⟨_, ⟨_, ⟨agreeFirst, rfl⟩, rfl⟩, others⟩
      simpa [lay] using (inductionHypothesis agreeFirst).mp others
    · rintro ⟨agreeAll, rfl⟩
      have agreeFirst : Agree (seen ++ (label.map (·, id)).toList) :=
        fun name first second firstListed secondListed =>
          agreeAll name first second (List.mem_append_left _ firstListed)
            (List.mem_append_left _ secondListed)
      exact ⟨_, ⟨_, ⟨agreeFirst, rfl⟩, rfl⟩,
        (inductionHypothesis agreeFirst).mpr ⟨agreeAll, by simp⟩⟩

end Binding

namespace Pattern

/-- The label of the place at an address. -/
def labelAt (pattern : Pattern α) (address : Address) : Option String :=
  (pattern.descend address).bind Pattern.label

/-- Every place lies on a live node that suits it. -/
def Lands (pattern : Pattern α) (graph : Graph α) (root : NodeId) : Prop :=
  ∀ address place, pattern.descend address = some place → ∃ id node,
    graph.descend root address = some id ∧ graph.node id = some node ∧ place.Suits node

/-- Every place lies on a live node that suits it, and places with one label lie on one node. -/
structure LiesAt (pattern : Pattern α) (graph : Graph α) (root : NodeId) : Prop where
  lands : pattern.Lands graph root
  agrees : ∀ first second label, pattern.labelAt first = some label →
    pattern.labelAt second = some label → graph.descend root first = graph.descend root second

/-- The binding says where the places of the pattern lie: their nodes in pre-order, and for each
label its node, in the order in which the labels first occur. -/
structure Recorded (pattern : Pattern α) (graph : Graph α) (root : NodeId) (binding : Binding) :
    Prop where
  start : binding.root = root
  matched : binding.matched.map some = pattern.addresses.map (graph.descend root)
  labelled : binding.labels.map Prod.fst = (pattern.addresses.filterMap pattern.labelAt).eraseDups
  bound : ∀ label id, (label, id) ∈ binding.labels ↔ ∃ address,
    pattern.labelAt address = some label ∧ graph.descend root address = some id

/-- What the walk adds to the binding, place by place. -/
def landings (pattern : Pattern α) (graph : Graph α) (root : NodeId) :
    List (Option String × NodeId) :=
  pattern.addresses.filterMap (pattern.landing graph root)

section Lands

variable {graph : Graph α} {pattern : Pattern α} {root : NodeId}

/-- A walk that meets all places binds their labels, if they agree. The walk and the
list of addresses go through the places in the same order. -/
theorem matchAt_eq_some_iff {binding : Binding} : pattern.matchAt graph root = some binding ↔
    (∀ address ∈ pattern.addresses, (pattern.landing graph root address).isSome = true) ∧
      Agree (labelsOf (pattern.landings graph root)) ∧
        binding = ⟨root, (labelsOf (pattern.landings graph root)).eraseDups,
          (pattern.landings graph root).map Prod.snd⟩ := by
  have none : Agree [] := fun _ _ _ listed => absurd listed List.not_mem_nil
  rw [matchAt, layOn_eq_foldlM, foldlM_bind_eq_some_iff]
  exact and_congr_right fun _ => Binding.foldlM_add_eq_some_iff none

/-- Where every place lands, the address of a place leads to its node and to its
label. -/
theorem Lands.landing_eq (lands : pattern.Lands graph root) {address : Address}
    {place : Pattern α} (placed : pattern.descend address = some place) : ∃ id,
      graph.descend root address = some id ∧
      pattern.landing graph root address = some (place.label, id) := by
  obtain ⟨id, node, reached, found, suits⟩ := lands address place placed
  exact ⟨id, reached, landing_eq_some_iff.mpr
    ⟨place, node, placed, reached, found, admits_eq_true_iff.mpr suits, rfl⟩⟩

/-- The walk meets all places if each lies on a live node that suits it. Addresses
are those at which there is a place. -/
theorem lands_iff : pattern.Lands graph root ↔
    ∀ address ∈ pattern.addresses, (pattern.landing graph root address).isSome = true := by
  constructor
  · intro lands address listed
    obtain ⟨place, placed⟩ := mem_addresses_iff.mp listed
    obtain ⟨id, -, landed⟩ := lands.landing_eq placed
    rw [landed]
    rfl
  · intro each address place placed
    obtain ⟨⟨label, id⟩, landed⟩ :=
      Option.isSome_iff_exists.mp (each address (mem_addresses_iff.mpr ⟨place, placed⟩))
    obtain ⟨again, node, placedAgain, reached, found, admitted, -⟩ := landing_eq_some_iff.mp landed
    obtain rfl : place = again := Option.some.inj (placed.symm.trans placedAgain)
    exact ⟨id, node, reached, found, admits_eq_true_iff.mp admitted⟩

/-- Where every place lands, the labels are those of the pattern, each with the node
that the same address leads to in the graph. -/
theorem Lands.mem_labelsOf_iff (lands : pattern.Lands graph root) {label : String} {id : NodeId} :
    (label, id) ∈ labelsOf (pattern.landings graph root) ↔ ∃ address,
      pattern.labelAt address = some label ∧ graph.descend root address = some id := by
  rw [RangeFold.mem_labelsOf_iff, landings, List.mem_filterMap]
  constructor
  · rintro ⟨address, -, landed⟩
    obtain ⟨place, node, placed, reached, -, -, labelled⟩ := landing_eq_some_iff.mp landed
    exact ⟨address, Option.bind_eq_some_iff.mpr ⟨place, placed, labelled⟩, reached⟩
  · rintro ⟨address, labelled, reached⟩
    obtain ⟨place, placed, named⟩ := Option.bind_eq_some_iff.mp labelled
    obtain ⟨other, again, landed⟩ := lands.landing_eq placed
    obtain rfl : id = other := Option.some.inj (reached.symm.trans again)
    exact ⟨address, mem_addresses_iff.mpr ⟨place, placed⟩, named ▸ landed⟩

/-- Labels agree as the walk meets them exactly if places with one label lie on one
node. The order of the walk has no part in the first formulation. -/
theorem liesAt_iff : pattern.LiesAt graph root ↔
    pattern.Lands graph root ∧ Agree (labelsOf (pattern.landings graph root)) := by
  constructor
  · rintro ⟨lands, agrees⟩
    refine ⟨lands, fun label first second firstListed secondListed => ?_⟩
    obtain ⟨firstAddress, labelled, reached⟩ := lands.mem_labelsOf_iff.mp firstListed
    obtain ⟨secondAddress, labelledToo, reachedToo⟩ := lands.mem_labelsOf_iff.mp secondListed
    have same := agrees firstAddress secondAddress label labelled labelledToo
    exact Option.some.inj (reached.symm.trans (same.trans reachedToo))
  · rintro ⟨lands, agree⟩
    refine ⟨lands, fun first second label labelled labelledToo => ?_⟩
    have reaches {address : Address} (labelled : pattern.labelAt address = some label) :
        ∃ id, graph.descend root address = some id := by
      obtain ⟨place, placed, -⟩ := Option.bind_eq_some_iff.mp labelled
      obtain ⟨id, reached, -⟩ := lands.landing_eq placed
      exact ⟨id, reached⟩
    obtain ⟨id, reached⟩ := reaches labelled
    obtain ⟨other, reachedToo⟩ := reaches labelledToo
    have same : id = other := agree label id other
      (lands.mem_labelsOf_iff.mpr ⟨first, labelled, reached⟩)
      (lands.mem_labelsOf_iff.mpr ⟨second, labelledToo, reachedToo⟩)
    rw [reached, reachedToo, same]

/-- The nodes of the places, as the walk meets them. They are found by following the
same addresses through the graph. -/
theorem Lands.nodes_eq (lands : pattern.Lands graph root) :
    ((pattern.landings graph root).map Prod.snd).map some =
      pattern.addresses.map (graph.descend root) := by
  have reaches (address : Address) (listed : address ∈ pattern.addresses) :
      (pattern.landing graph root address).map Prod.snd = graph.descend root address ∧
        (graph.descend root address).isSome = true := by
    obtain ⟨place, placed⟩ := mem_addresses_iff.mp listed
    obtain ⟨id, reached, landed⟩ := lands.landing_eq placed
    simp [reached, landed]
  rw [landings, List.map_filterMap, List.filterMap_congr fun address listed =>
    (reaches address listed).1, List.map_filterMap_some_eq_filter_map_isSome, List.filter_eq_self,
    List.forall_mem_map]
  exact fun address listed => (reaches address listed).2

/-- The labels of the places, as the walk meets them. Places without labels are
passed over. -/
theorem Lands.labels_eq (lands : pattern.Lands graph root) :
    (labelsOf (pattern.landings graph root)).map Prod.fst =
      pattern.addresses.filterMap pattern.labelAt := by
  rw [labelsOf, landings, List.filterMap_filterMap, List.map_filterMap]
  refine List.filterMap_congr fun address listed => ?_
  obtain ⟨place, placed⟩ := mem_addresses_iff.mp listed
  obtain ⟨id, -, landed⟩ := lands.landing_eq placed
  rw [landed, labelAt, placed, Option.bind_some, Option.bind_some]
  cases place.label <;> rfl

/-- The binding of a match says where the places lie. Nodes stand in pre-order and
labels at their first occurrence. -/
theorem recorded_of_matchAt {binding : Binding}
    (matched : pattern.matchAt graph root = some binding) :
    pattern.Recorded graph root binding := by
  obtain ⟨all, agree, rfl⟩ := matchAt_eq_some_iff.mp matched
  have lands := lands_iff.mpr all
  refine ⟨rfl, lands.nodes_eq, ?_, fun label id => ?_⟩
  · rw [map_eraseDups, lands.labels_eq]
    rintro ⟨label, first⟩ firstListed ⟨_, second⟩ secondListed rfl
    rw [agree label first second firstListed secondListed]
  · rw [List.mem_eraseDups, lands.mem_labelsOf_iff]

/-- A pattern matches where it lies. The matcher misses no place where it does and
finds none where it does not. -/
theorem matches_iff :
    (∃ binding, pattern.matchAt graph root = some binding) ↔ pattern.LiesAt graph root := by
  rw [liesAt_iff, lands_iff]
  constructor
  · rintro ⟨binding, matched⟩
    obtain ⟨all, agree, -⟩ := matchAt_eq_some_iff.mp matched
    exact ⟨all, agree⟩
  · rintro ⟨all, agree⟩
    exact ⟨_, matchAt_eq_some_iff.mpr ⟨all, agree, rfl⟩⟩

/-- The node under the root is live. The root is a place of the pattern like any
other. -/
theorem LiesAt.live (lies : pattern.LiesAt graph root) : ∃ node, graph.node root = some node := by
  obtain ⟨id, node, reached, found, -⟩ := lies.lands [] pattern rfl
  obtain rfl : root = id := Option.some.inj reached
  exact ⟨node, found⟩

/-- The roots of the matches that a search finds stand in the order that it goes by.
Nodes of a cycle would not be in it. -/
theorem roots_findAll : (pattern.findAll graph).map Binding.root =
    graph.order.filter fun id => (pattern.matchAt graph id).isSome := by
  rw [findAll, List.map_filterMap, ← List.filterMap_eq_filter]
  refine List.filterMap_congr fun id _ => ?_
  cases matched : pattern.matchAt graph id with
  | none => simp [Option.guard, matched]
  | some binding => simp [Option.guard, matched, (recorded_of_matchAt matched).start]

end Lands

/-- Matching finds what there is to find. The addresses of a pattern are those of all its places, in
pre-order. A pattern matches at a root exactly if it lies there, and then the binding lists the nodes
of the places in pre-order and for each label its node, in the order in which the labels first occur.
A search finds the matches at all nodes of a reachable graph, each once and in topological order. -/
theorem matching_exact [Arithmetic α] {graph : Graph α} (reachable : graph.Reachable)
    (pattern : Pattern α) :
    pattern.addresses.Pairwise (· < ·) ∧
      (∀ address, address ∈ pattern.addresses ↔ ∃ place, pattern.descend address = some place) ∧
      (∀ root, (∃ binding, pattern.matchAt graph root = some binding) ↔
        pattern.LiesAt graph root) ∧
      (∀ root binding, pattern.matchAt graph root = some binding →
        pattern.Recorded graph root binding) ∧
      graph.Topological graph.order ∧
      ((pattern.findAll graph).map Binding.root).Sublist graph.order ∧
      ∀ binding, binding ∈ pattern.findAll graph ↔
        pattern.matchAt graph binding.root = some binding := by
  have sound := reachable.sound
  have topological := sound.linked.order_topological sound.fresh.single sound.acyclic
  refine ⟨pattern.addresses_preorder, fun _ => mem_addresses_iff, fun _ => matches_iff,
    fun _ _ => recorded_of_matchAt, topological, ?_, fun binding => ?_⟩
  · rw [roots_findAll]
    exact List.filter_sublist
  · rw [findAll, List.mem_filterMap]
    constructor
    · rintro ⟨root, -, matched⟩
      rwa [(recorded_of_matchAt matched).start]
    · intro matched
      have live := (matches_iff.mp ⟨binding, matched⟩).live
      exact ⟨binding.root, (topological.live _).mpr live, matched⟩

/-- A product of a rectified value with itself: both factors carry one label. -/
def square : Pattern α :=
  (((ofKind .multiply).labelled "op").withChild
    (((ofKind .relu).labelled "factor").withChild (anything.labelled "source"))).withChild
      (anything.labelled "factor")

end Pattern

/-- A rectified entry, its square and its product with another entry. -/
def productsSession : List (Call Rat) :=
  [.add .parameter "x" [] (Attributes.empty.insert "shape" (.shape [2])),
    .add .parameter "y" [] (Attributes.empty.insert "shape" (.shape [2])),
    .add .relu "bounded" [⟨0, 0⟩] Attributes.empty,
    .add .multiply "square" [⟨2, 0⟩, ⟨2, 0⟩] Attributes.empty,
    .add .multiply "product" [⟨2, 0⟩, ⟨1, 0⟩] Attributes.empty]

/-- The graph that the session builds. -/
def products : Graph Rat := Call.performAll productsSession Graph.empty

/-- What is found of the square. -/
def squareBinding : Binding := ⟨3, [("op", 3), ("factor", 2), ("source", 0)], [3, 2, 0, 2]⟩

/-- The square is found, and the product is not. The second factor of the product is
another node than the first, and they would have one label. -/
theorem products_matched :
    products.Reachable ∧ Pattern.square.LiesAt products 3 ∧ ¬ Pattern.square.LiesAt products 4 ∧
      Pattern.square.Recorded products 3 squareBinding ∧
      ∀ binding, binding ∈ Pattern.square.findAll products ↔ binding = squareBinding := by
  have reachable : products.Reachable := ⟨productsSession, rfl⟩
  obtain ⟨-, -, lies, recorded, -, -, found⟩ := Pattern.matching_exact reachable Pattern.square
  have matched : Pattern.square.matchAt products 3 = some squareBinding := by decide +kernel
  have refused : Pattern.square.matchAt products 4 = none := by decide +kernel
  have roots : (Pattern.square.findAll products).map Binding.root = [3] := by decide +kernel
  refine ⟨reachable, (lies 3).mp ⟨_, matched⟩, fun other => ?_, recorded 3 _ matched, ?_⟩
  · obtain ⟨binding, again⟩ := (lies 4).mpr other
    simp [refused] at again
  · intro binding
    constructor
    · intro listed
      have root := List.mem_map_of_mem (f := Binding.root) listed
      rw [roots, List.mem_singleton] at root
      have again := (found binding).mp listed
      rw [root, matched] at again
      exact (Option.some.inj again).symm
    · rintro rfl
      exact (found squareBinding).mpr matched

end RangeFold
