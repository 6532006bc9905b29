import RangeFold.Pattern.Matching

/-!
# Laying patterns

A place of a pattern has an address, the children to take on the way to it, and the same address
leads from the node under the root to the node under the place: at each step to the producer of the
input of that number. So where a place comes to lie does not depend on the walk that lays it.

The walk is one over the addresses in pre-order, which is their lexicographic order. At each of them
it looks up the place and the node, tests the one on the other and adds them to the binding.
-/

namespace RangeFold

variable {α : Type}

/-- The children to take, one after the other, from the root of a pattern to one of its places. -/
abbrev Address := List Nat

/-- The node at an address below a node: at each step the producer of the input of that number. -/
def Graph.descend (graph : Graph α) : NodeId → Address → Option NodeId
  | id, [] => some id
  | id, input :: address =>
    (graph.producer id input).bind fun source => graph.descend source address

/-- Bind and count one more place, of which the label and the node are given. -/
def Binding.add (binding : Binding) (laid : Option String × NodeId) : Option Binding :=
  (binding.bindLabel laid.1 laid.2).map (·.lay laid.2)

namespace Pattern

/-- A node passes the tests of a place. -/
structure Suits (place : Pattern α) (node : Node α) : Prop where
  kind : place.test.accepts node.kind = true
  inputs : place.children.length ≤ node.inputs.length
  condition : ∀ condition, place.condition = some condition → condition node = true

/-- The test of a place, computed in one go, is the conjunction of its conditions. -/
theorem admits_eq_true_iff {place : Pattern α} {node : Node α} :
    place.admits node = true ↔ place.Suits node := by
  simp only [admits, Bool.and_eq_true, decide_eq_true_eq]
  constructor
  · rintro ⟨⟨kind, inputs⟩, passes⟩
    exact ⟨kind, inputs, fun condition stated => by simpa [stated] using passes⟩
  · rintro ⟨kind, inputs, passes⟩
    refine ⟨⟨kind, inputs⟩, ?_⟩
    cases stated : place.condition with
    | none => rfl
    | some condition => exact passes condition stated

section Walk

variable {graph : Graph α} {id : NodeId} {binding laid : Binding}

/-- A pattern lies on a live node that passes its tests if its children lie on the
producers. Children are laid from left to right, each with the binding of those
before it. -/
theorem layOn_eq_some_iff {test : KindTest} {label : Option String} {children : List (Pattern α)}
    {condition : Option (Node α → Bool)} :
    layOn graph ⟨test, label, children, condition⟩ id binding = some laid ↔
      ∃ node bound, graph.node id = some node ∧
        admits ⟨test, label, children, condition⟩ node = true ∧
        binding.bindLabel label id = some bound ∧
        layAll graph children node.inputs (bound.lay id) = some laid := by
  unfold layOn
  cases found : graph.node id with
  | none => simp
  | some node =>
    by_cases admitted : admits ⟨test, label, children, condition⟩ node = true
    · cases binding.bindLabel label id <;> simp [admitted]
    · simp [admitted]

/-- Laying the children splits off the first, whose binding the others continue. -/
theorem layAll_cons {child : Pattern α} {rest : List (Pattern α)} {source : OutputRef}
    {sources : List OutputRef} : layAll graph (child :: rest) (source :: sources) binding =
      (layOn graph child source.node binding).bind (layAll graph rest sources) := by
  rw [layAll]
  cases layOn graph child source.node binding <;> rfl

/-- Without children left the binding stands, also if the node has further inputs. -/
theorem layAll_nil {sources : List OutputRef} :
    layAll graph ([] : List (Pattern α)) sources binding = some binding := by
  simp [layAll]

/-- The root of a match lies on a live node that suits it. What lies below it is not
asked here. -/
theorem suits_of_matchAt {pattern : Pattern α}
    (matched : (pattern.matchAt graph id).isSome = true) :
    ∃ node, graph.node id = some node ∧ pattern.Suits node := by
  obtain ⟨test, label, children, condition⟩ := pattern
  obtain ⟨binding, laid⟩ := Option.isSome_iff_exists.mp matched
  obtain ⟨node, -, found, admitted, -⟩ := layOn_eq_some_iff.mp laid
  exact ⟨node, found, admits_eq_true_iff.mp admitted⟩

/-- A pattern of one kind matches at nodes of that kind only. A matcher may
therefore look at nodes of the kind alone. -/
theorem kind_of_matchAt {pattern : Pattern α} {kind : OpKind}
    (only : pattern.test = .exactly kind) (matched : (pattern.matchAt graph id).isSome = true) :
    ∃ node, graph.node id = some node ∧ node.kind = kind := by
  obtain ⟨node, found, suits⟩ := suits_of_matchAt matched
  have accepted := suits.kind
  rw [only] at accepted
  exact ⟨node, found, (beq_iff_eq.mp accepted).symm⟩

end Walk

/-- What holds of every pattern that it holds of all children of holds of every
pattern. The nested lists of children are dealt with once and for all. -/
theorem inductionOnChildren {motive : Pattern α → Prop}
    (step : ∀ pattern : Pattern α, (∀ child ∈ pattern.children, motive child) → motive pattern)
    (pattern : Pattern α) : motive pattern := by
  refine @Pattern.rec α motive (fun children => ∀ child ∈ children, motive child) ?_ ?_ ?_ pattern
  · intro test label children condition each
    exact step ⟨test, label, children, condition⟩ each
  · simp
  · intro child rest holds each
    exact List.forall_mem_cons.mpr ⟨holds, each⟩

/-- The place at an address. -/
def descend : Pattern α → Address → Option (Pattern α)
  | pattern, [] => some pattern
  | pattern, child :: address =>
    (pattern.children[child]?).bind fun below => below.descend address

mutual

/-- The addresses of all places in pre-order. -/
def addresses : Pattern α → List Address
  | ⟨_, _, children, _⟩ => [] :: addressesFrom 0 children
termination_by structural pattern => pattern

/-- The addresses below children that are numbered from a first number on. -/
def addressesFrom : Nat → List (Pattern α) → List Address
  | _, [] => []
  | number, child :: rest =>
    child.addresses.map (number :: ·) ++ addressesFrom (number + 1) rest
termination_by structural _ patterns => patterns

end

section Addresses

variable {pattern : Pattern α} {children : List (Pattern α)} {address : Address} {number : Nat}

/-- The addresses of a pattern are the root and, behind the number of a child, the
addresses of that child. -/
theorem addresses_eq (pattern : Pattern α) :
    pattern.addresses = [] :: addressesFrom 0 pattern.children := by
  cases pattern
  rfl

/-- An address below the root names a child and goes on inside it. -/
theorem mem_addressesFrom_iff : address ∈ addressesFrom number children ↔
    ∃ (child : Nat) (below : Pattern α) (rest : Address),
      children[child]? = some below ∧ rest ∈ below.addresses ∧ address = (number + child) :: rest := by
  induction children generalizing number with
  | nil => simp [addressesFrom]
  | cons first others inductionHypothesis =>
    simp only [addressesFrom, List.mem_append, List.mem_map, inductionHypothesis]
    constructor
    · rintro (⟨rest, listed, rfl⟩ | ⟨child, below, rest, placed, listed, rfl⟩)
      · exact ⟨0, first, rest, rfl, listed, rfl⟩
      · exact ⟨child + 1, below, rest, placed, listed, by rw [Nat.add_assoc, Nat.add_comm 1]⟩
    · rintro ⟨child, below, rest, placed, listed, rfl⟩
      cases child with
      | zero =>
        obtain rfl : first = below := Option.some.inj placed
        exact .inl ⟨rest, listed, rfl⟩
      | succ child =>
        exact .inr ⟨child, below, rest, placed, listed, by rw [Nat.add_assoc, Nat.add_comm 1]⟩

/-- An address is listed if there is a place at it. Following an address and listing
all of them agree. -/
theorem mem_addresses_iff :
    address ∈ pattern.addresses ↔ ∃ place, pattern.descend address = some place := by
  induction address generalizing pattern with
  | nil => simp [addresses_eq, descend]
  | cons child address inductionHypothesis =>
    rw [addresses_eq, List.mem_cons, mem_addressesFrom_iff]
    simp only [reduceCtorEq, false_or, Nat.zero_add, List.cons.injEq, descend,
      Option.bind_eq_some_iff]
    constructor
    · rintro ⟨_, below, _, placed, listed, rfl, rfl⟩
      obtain ⟨place, reached⟩ := inductionHypothesis.mp listed
      exact ⟨place, below, placed, reached⟩
    · rintro ⟨place, below, placed, reached⟩
      exact ⟨child, below, address, placed, inductionHypothesis.mpr ⟨place, reached⟩, rfl, rfl⟩

/-- The addresses of the children come in pre-order if those of each child do, since
the child's number decides first. -/
theorem addressesFrom_preorder
    (each : ∀ child ∈ children, child.addresses.Pairwise (· < ·)) (number : Nat) :
    (addressesFrom number children).Pairwise (· < ·) := by
  induction children generalizing number with
  | nil => exact .nil
  | cons first others inductionHypothesis =>
    obtain ⟨own, rest⟩ := List.forall_mem_cons.mp each
    rw [addressesFrom, List.pairwise_append, List.pairwise_map]
    refine ⟨?_, inductionHypothesis rest _, ?_⟩
    · exact own.imp fun less => List.cons_lt_cons_iff.mpr (.inr ⟨rfl, less⟩)
    · intro left leftListed right rightListed
      obtain ⟨address, -, rfl⟩ := List.mem_map.mp leftListed
      obtain ⟨child, -, rest, -, -, rfl⟩ := mem_addressesFrom_iff.mp rightListed
      exact List.cons_lt_cons_iff.mpr (.inl (by omega))

/-- A place comes before those below it, and what is below a child before what is below a later
one. -/
theorem addresses_preorder (pattern : Pattern α) : pattern.addresses.Pairwise (· < ·) := by
  induction pattern using inductionOnChildren with
  | step pattern each =>
    rw [addresses_eq, List.pairwise_cons]
    refine ⟨fun address listed => ?_, addressesFrom_preorder each 0⟩
    obtain ⟨child, -, rest, -, -, rfl⟩ := mem_addressesFrom_iff.mp listed
    exact List.nil_lt_cons _ _

end Addresses

/-- The label of the place at an address and the node there, if that passes the place's tests. -/
def landing (graph : Graph α) (pattern : Pattern α) (root : NodeId) (address : Address) :
    Option (Option String × NodeId) :=
  (pattern.descend address).bind fun place => (graph.descend root address).bind fun id =>
    (graph.node id).bind fun node => if place.admits node then some (place.label, id) else none

section Landing

variable {graph : Graph α} {pattern : Pattern α} {root : NodeId}

/-- A place lands at a node if both ends of the address exist and the node passes
the tests of the place. -/
theorem landing_eq_some_iff {address : Address} {label : Option String} {id : NodeId} :
    pattern.landing graph root address = some (label, id) ↔ ∃ place node,
      pattern.descend address = some place ∧ graph.descend root address = some id ∧
      graph.node id = some node ∧ place.admits node = true ∧ place.label = label := by
  simp only [landing, Option.bind_eq_some_iff, Option.ite_none_right_eq_some, Option.some.injEq,
    Prod.mk.injEq]
  grind

/-- Children are laid on the producers of successive inputs by walking over the addresses below
them, if each child by itself is laid so. -/
theorem layAll_eq_foldlM {children : List (Pattern α)}
    (each : ∀ child ∈ children, ∀ id binding, child.layOn graph id binding =
      child.addresses.foldlM (fun laid address => (child.landing graph id address).bind laid.add)
        binding)
    {number : Nat} {sources : List OutputRef} {land : Address → Option (Option String × NodeId)}
    (enough : children.length ≤ sources.length)
    (lands : ∀ (place : Nat) child source, children[place]? = some child →
      sources[place]? = some source → ∀ address,
        land ((number + place) :: address) = child.landing graph source.node address)
    (binding : Binding) :
    layAll graph children sources binding =
      (addressesFrom number children).foldlM (fun laid address => (land address).bind laid.add)
        binding := by
  induction children generalizing number sources binding with
  | nil =>
    rw [layAll_nil]
    rfl
  | cons child rest inductionHypothesis =>
    cases sources with
    | nil => simp at enough
    | cons source others =>
      have own (address : Address) :
          land (number :: address) = child.landing graph source.node address :=
        lands 0 child source rfl rfl address
      rw [layAll_cons, addressesFrom, List.foldlM_append, List.foldlM_map]
      simp only [own]
      rw [each child List.mem_cons_self]
      congr 1
      funext laid
      refine inductionHypothesis (fun child listed => each child (List.mem_cons_of_mem _ listed))
        (by simpa using enough) ?_ laid
      intro place child source placed fed address
      rw [Nat.add_assoc, Nat.add_comm 1]
      exact lands (place + 1) child source placed fed address

/-- Laying a pattern is a walk over its addresses. What goes on below a child is told by the
child's own addresses, so the walk is the same at every depth. -/
theorem layOn_eq_foldlM (pattern : Pattern α) (id : NodeId) (binding : Binding) :
    pattern.layOn graph id binding = pattern.addresses.foldlM
      (fun laid address => (pattern.landing graph id address).bind laid.add) binding := by
  induction pattern using inductionOnChildren generalizing id binding with
  | step pattern each =>
    obtain ⟨test, label, children, condition⟩ := pattern
    have atRoot : landing graph ⟨test, label, children, condition⟩ id [] =
        (graph.node id).bind fun node =>
          if admits ⟨test, label, children, condition⟩ node then some (label, id) else none := rfl
    rw [addresses_eq, List.foldlM_cons, atRoot, layOn]
    cases found : graph.node id with
    | none => rfl
    | some node =>
      by_cases admitted : admits ⟨test, label, children, condition⟩ node = true
      · have enough : children.length ≤ node.inputs.length :=
          (admits_eq_true_iff.mp admitted).inputs
        have lands (place : Nat) (child : Pattern α) (source : OutputRef)
            (placed : children[place]? = some child) (fed : node.inputs[place]? = some source)
            (address : Address) : landing graph ⟨test, label, children, condition⟩ id
              ((0 + place) :: address) = child.landing graph source.node address := by
          simp [landing, descend, Graph.descend, Graph.producer, found, placed, fed]
        simp only [admitted, if_true, Option.bind_some, Binding.add]
        cases binding.bindLabel label id with
        | none => rfl
        | some bound => exact layAll_eq_foldlM each enough lands (bound.lay id)
      · simp [admitted]

end Landing

end Pattern

end RangeFold
