import RangeFold.Readiness
import Mathlib.Data.List.Perm.Basic
import Mathlib.Data.Fintype.Card
import Mathlib.Data.Set.Finite.Basic
import Mathlib.Logic.Function.Basic
import Mathlib.Order.WellFounded

/-!
# What is listed by readiness

A listing said without a queue and without counters: it goes on with the earliest of the
places that are ready, those unlisted places that no unlisted place feeds, until there is
none. The counters hold what unlisted places still owe, and the queue holds the ready
places in order; listing a place and supplying what it feeds keeps both true.

Left out are the places that feed themselves, directly or through others, and those that such
places feed. Without them nothing is left out.
-/

namespace RangeFold

namespace Readiness

/-- Of any two places one may precede the other, and preceding goes on. -/
structure Ranks (earlier : Nat → Nat → Bool) : Prop where
  total : ∀ left right, earlier left right = true ∨ earlier right left = true
  trans : ∀ left middle right, earlier left middle = true → earlier middle right = true →
    earlier left right = true

/-- The supplies that unlisted places still owe. -/
def outstanding (feeds : Nat → List Nat) (places done : List Nat) : List Nat :=
  (places.filter (· ∉ done)).flatMap feeds

/-- A place is ready if it is not listed yet and no unlisted place feeds it. -/
structure Ready (feeds : Nat → List Nat) (places done : List Nat) (place : Nat) : Prop where
  member : place ∈ places
  unlisted : place ∉ done
  supplied : place ∉ outstanding feeds places done

/-- After the places listed already, the earliest ready place comes next, until no place is
ready. -/
inductive Listing (earlier : Nat → Nat → Bool) (feeds : Nat → List Nat) (places : List Nat) :
    List Nat → List Nat → Prop where
  | finished {done : List Nat} (exhausted : ∀ place, ¬ Ready feeds places done place) :
      Listing earlier feeds places done []
  | next {done rest : List Nat} {place : Nat} (ready : Ready feeds places done place)
      (first : ∀ other, Ready feeds places done other → earlier place other = true)
      (others : Listing earlier feeds places (place :: done) rest) :
      Listing earlier feeds places done (place :: rest)

/-- The state of a listing knows how many supplies every place misses, and its queue holds
the unlisted places that miss none. -/
structure Tracks (earlier : Nat → Nat → Bool) (places done : List Nat) (missing : Nat → Nat)
    (state : Readiness) : Prop where
  counted : ∀ place ∈ places, state.missing[place]? = some (missing place : Int)
  waiting : ∀ place, place ∈ state.ready ↔ place ∈ places ∧ place ∉ done ∧ missing place = 0
  once : state.ready.Nodup
  sorted : state.ready.Pairwise fun left right => earlier left right = true

section Outstanding

variable {feeds : Nat → List Nat} {places done : List Nat}

/-- A place is still owed a supply if one of its feeders is not listed yet. -/
theorem mem_outstanding_iff {place : Nat} : place ∈ outstanding feeds places done ↔
    ∃ feeder ∈ places, feeder ∉ done ∧ place ∈ feeds feeder := by
  simp [outstanding, and_assoc]

/-- Listing a place takes it from the unlisted ones. It stood among them once. -/
theorem erase_unlisted (distinct : places.Nodup) (place : Nat) :
    (places.filter (· ∉ done)).erase place = places.filter (· ∉ place :: done) := by
  rw [List.Nodup.erase_eq_filter (distinct.filter _), List.filter_filter]
  apply List.filter_congr
  intro other _
  by_cases same : other = place <;> simp [same]

/-- What is owed before a place is listed is what it feeds and what is owed
afterwards. These are the supplies to be handed out when it is listed. -/
theorem outstanding_perm (distinct : places.Nodup) {place : Nat} (member : place ∈ places)
    (unlisted : place ∉ done) : (outstanding feeds places done).Perm
      (feeds place ++ outstanding feeds places (place :: done)) := by
  have chosen : place ∈ places.filter (· ∉ done) := by simpa using ⟨member, unlisted⟩
  have split := (List.perm_cons_erase chosen).flatMap_right feeds
  rwa [erase_unlisted distinct] at split

/-- Listing a place leaves nobody with more to owe. So a place that is ready stays
so until it is listed. -/
theorem outstanding_subset (place : Nat) :
    outstanding feeds places (place :: done) ⊆ outstanding feeds places done := by
  intro owed member
  obtain ⟨feeder, listed, unlisted, fed⟩ := mem_outstanding_iff.mp member
  exact mem_outstanding_iff.mpr
    ⟨feeder, listed, fun old => unlisted (List.mem_cons_of_mem place old), fed⟩

end Outstanding

section Insert

variable {earlier : Nat → Nat → Bool} {place : Nat} {ready : List Nat}

/-- The queue gains the inserted place, wherever that comes to stand. -/
theorem insertReady_perm : (insertReady earlier place ready).Perm (place :: ready) := by
  induction ready with
  | nil => exact List.Perm.refl _
  | cons head rest inductionHypothesis =>
    unfold insertReady
    split
    · exact List.Perm.refl _
    · exact (inductionHypothesis.cons head).trans (List.Perm.swap place head rest)

/-- Inserting keeps a queue in order. The first place that does not come earlier is
where it goes. -/
theorem insertReady_sorted (ranks : Ranks earlier)
    (sorted : ready.Pairwise fun left right => earlier left right = true) :
    (insertReady earlier place ready).Pairwise fun left right => earlier left right = true := by
  induction sorted with
  | nil => exact List.pairwise_singleton _ _
  | @cons head rest before sorted inductionHypothesis =>
    unfold insertReady
    split
    · rename_i precedes
      refine List.Pairwise.cons ?_ (List.Pairwise.cons before sorted)
      intro other member
      rcases List.mem_cons.mp member with rfl | member
      · exact precedes
      · exact ranks.trans _ _ _ precedes (before other member)
    · rename_i follows
      refine List.Pairwise.cons ?_ inductionHypothesis
      intro other member
      rcases List.mem_cons.mp (insertReady_perm.mem_iff.mp member) with rfl | member
      · exact (ranks.total head other).resolve_right follows
      · exact before other member

end Insert

section Supply

variable {earlier : Nat → Nat → Bool} {places done : List Nat}

/-- The counter of a place is the number of supplies it misses. -/
theorem Tracks.getD_missing {missing : Nat → Nat} {state : Readiness}
    (tracks : Tracks earlier places done missing state) {place : Nat} (member : place ∈ places) :
    state.missing.getD place 0 = (missing place : Int) := by
  rw [List.getD_eq_getElem?_getD, tracks.counted place member]
  rfl

/-- One supply to a place that misses some. If it was the last one missing, the
place enters the queue. -/
theorem Tracks.supply (ranks : Ranks earlier) {missing : Nat → Nat} {state : Readiness}
    (tracks : Tracks earlier places done missing state) {place : Nat} (member : place ∈ places)
    (unlisted : place ∉ done) (owed : 0 < missing place) :
    Tracks earlier places done (Function.update missing place (missing place - 1))
      (state.supply earlier place) := by
  have inside : place < state.missing.length :=
    (List.getElem?_eq_some_iff.mp (tracks.counted place member)).1
  have absent : place ∉ state.ready := by
    intro waits
    have settled := ((tracks.waiting place).mp waits).2.2
    omega
  have counted : ∀ other ∈ places, (state.missing.set place (missing place - 1 : Int))[other]? =
      some (Function.update missing place (missing place - 1) other : Int) := by
    intro other listed
    by_cases same : place = other
    · subst same
      rw [List.getElem?_set_self inside, Function.update_self, Int.ofNat_sub owed]
      rfl
    · rw [List.getElem?_set_ne same, Function.update_of_ne (Ne.symm same)]
      exact tracks.counted other listed
  simp only [Readiness.supply, tracks.getD_missing member]
  -- Only the last supply that is missing lets the place into the queue.
  by_cases last : missing place = 1
  · have none : (missing place : Int) - 1 = 0 := by omega
    rw [if_pos none]
    refine ⟨counted, ?_, ?_, insertReady_sorted ranks tracks.sorted⟩
    · intro other
      rw [insertReady_perm.mem_iff, List.mem_cons, tracks.waiting]
      by_cases same : other = place
      · subst same
        simp [member, unlisted, last]
      · simp [same]
    · exact insertReady_perm.nodup_iff.mpr (List.nodup_cons.mpr ⟨absent, tracks.once⟩)
  · have more : (missing place : Int) - 1 ≠ 0 := by omega
    rw [if_neg more]
    refine ⟨counted, ?_, tracks.once, tracks.sorted⟩
    intro other
    rw [tracks.waiting]
    by_cases same : other = place
    · subst same
      have neither : missing other ≠ 0 ∧ missing other - 1 ≠ 0 := by omega
      simp [neither]
    · simp [same]

/-- The first of several supplies leaves the others to come. The counters are ahead
of the listing while they are handed out. -/
theorem Tracks.supplyFirst (ranks : Ranks earlier) {later : Nat → Nat} {place : Nat}
    {rest : List Nat} {state : Readiness} (member : place ∈ places) (unlisted : place ∉ done)
    (tracks : Tracks earlier places done
      (fun other => later other + (place :: rest).count other) state) :
    Tracks earlier places done (fun other => later other + rest.count other)
      (state.supply earlier place) := by
  have owed : 0 < later place + (place :: rest).count place := by
    rw [List.count_cons_self]
    omega
  have supplied := tracks.supply ranks member unlisted owed
  have fewer : Function.update (fun other => later other + (place :: rest).count other) place
      (later place + (place :: rest).count place - 1) =
        fun other => later other + rest.count other := by
    funext other
    by_cases same : other = place
    · subst same
      simp
    · simp [same, List.count_cons_of_ne (Ne.symm same)]
  rwa [fewer] at supplied

/-- All supplies of one place in turn. Then the counters are in step with the
listing again. -/
theorem Tracks.supplyAll (ranks : Ranks earlier) {later : Nat → Nat} {supplies : List Nat}
    {state : Readiness} (within : ∀ place ∈ supplies, place ∈ places ∧ place ∉ done)
    (tracks : Tracks earlier places done (fun place => later place + supplies.count place) state) :
    Tracks earlier places done later (supplies.foldl (Readiness.supply earlier) state) := by
  induction supplies generalizing state with
  | nil => simpa using tracks
  | cons place rest inductionHypothesis =>
    obtain ⟨member, unlisted⟩ := within place List.mem_cons_self
    exact inductionHypothesis (fun other listed => within other (List.mem_cons_of_mem _ listed))
      (tracks.supplyFirst ranks member unlisted)

/-- No counter is below zero. -/
def Counted (state : Readiness) : Prop := ∀ count ∈ state.missing, 0 ≤ count

/-- A supply to a place that misses some takes no counter below zero. The one
counter that falls was positive. -/
theorem Tracks.supply_counted {missing : Nat → Nat} {state : Readiness}
    (tracks : Tracks earlier places done missing state) {place : Nat} (member : place ∈ places)
    (owed : 0 < missing place) (counted : state.Counted) :
    (state.supply earlier place).Counted := by
  intro count entered
  simp only [Readiness.supply, tracks.getD_missing member] at entered
  rcases List.mem_or_eq_of_mem_set entered with old | rfl
  · exact counted count old
  · omega

/-- The states between the supplies of one place, from the first to the last. -/
def supplying (earlier : Nat → Nat → Bool) : List Nat → Readiness → List Readiness
  | [], state => [state]
  | place :: rest, state => state :: supplying earlier rest (state.supply earlier place)

/-- While the supplies of a listed place are handed out one by one, no counter falls
below zero, because each was counted in before. -/
theorem Tracks.supplying_counted (ranks : Ranks earlier) {later : Nat → Nat} {supplies : List Nat}
    {state : Readiness} (within : ∀ place ∈ supplies, place ∈ places ∧ place ∉ done)
    (tracks : Tracks earlier places done (fun place => later place + supplies.count place) state)
    (counted : state.Counted) :
    (supplies.foldl (Readiness.supply earlier) state).Counted ∧
      ∀ moment ∈ supplying earlier supplies state, moment.Counted := by
  induction supplies generalizing state with
  | nil =>
    refine ⟨counted, fun moment listed => ?_⟩
    rw [List.mem_singleton.mp listed]
    exact counted
  | cons place rest inductionHypothesis =>
    obtain ⟨member, unlisted⟩ := within place List.mem_cons_self
    have owed : 0 < later place + (place :: rest).count place := by
      rw [List.count_cons_self]
      omega
    obtain ⟨final, others⟩ := inductionHypothesis
      (fun other listed => within other (List.mem_cons_of_mem _ listed))
      (tracks.supplyFirst ranks member unlisted) (tracks.supply_counted member owed counted)
    exact ⟨final, List.forall_mem_cons.mpr ⟨counted, others⟩⟩

end Supply

section List

variable {earlier : Nat → Nat → Bool} {feeds : Nat → List Nat} {places : List Nat}

/-- The number of supplies each place still misses when some places are listed. -/
def owed (feeds : Nat → List Nat) (places done : List Nat) (place : Nat) : Nat :=
  (outstanding feeds places done).count place

/-- The places in the queue are the ready ones: unlisted and owed nothing. -/
theorem Tracks.ready_iff {done : List Nat} {state : Readiness}
    (tracks : Tracks earlier places done (owed feeds places done) state) {place : Nat} :
    place ∈ state.ready ↔ Ready feeds places done place := by
  rw [tracks.waiting, owed, List.count_eq_zero]
  exact ⟨fun ⟨member, unlisted, supplied⟩ => ⟨member, unlisted, supplied⟩,
    fun ready => ⟨ready.member, ready.unlisted, ready.supplied⟩⟩

/-- Listing a ready place leaves nothing owed to the places listed. It was owed
nothing itself, or it would not be ready. -/
theorem settled_next {done : List Nat} {place : Nat} (ready : Ready feeds places done place)
    (settled : ∀ old ∈ done, old ∉ outstanding feeds places done) :
    ∀ old ∈ place :: done, old ∉ outstanding feeds places (place :: done) := by
  intro old listed due
  have earlierDue := outstanding_subset place due
  rcases List.mem_cons.mp listed with rfl | listed
  · exact ready.supplied earlierDue
  · exact settled old listed earlierDue

/-- The first place of the queue is taken from it, with what it feeds still to be
supplied. No other place becomes ready by that alone. -/
theorem Tracks.take (distinct : places.Nodup)
    (closed : ∀ place ∈ places, ∀ fed ∈ feeds place, fed ∈ places) {done rest : List Nat}
    {place : Nat} {state : Readiness}
    (tracks : Tracks earlier places done (owed feeds places done) state)
    (settled : ∀ old ∈ done, old ∉ outstanding feeds places done)
    (queue : state.ready = place :: rest) :
    (∀ fed ∈ feeds place, fed ∈ places ∧ fed ∉ place :: done) ∧
      Tracks earlier places (place :: done)
        (fun other => owed feeds places (place :: done) other + (feeds place).count other)
        { state with ready := rest } := by
  have waits : place ∈ state.ready := by simp [queue]
  have ready : Ready feeds places done place := tracks.ready_iff.mp waits
  have split : (outstanding feeds places done).Perm
      (feeds place ++ outstanding feeds places (place :: done)) :=
    outstanding_perm distinct ready.member ready.unlisted
  have once : (place :: rest).Nodup := queue ▸ tracks.once
  have sorted : (place :: rest).Pairwise fun left right => earlier left right = true :=
    queue ▸ tracks.sorted
  constructor
  · intro fed listed
    refine ⟨closed place ready.member fed listed, ?_⟩
    have due : fed ∈ outstanding feeds places done :=
      mem_outstanding_iff.mpr ⟨place, ready.member, ready.unlisted, listed⟩
    intro old
    rcases List.mem_cons.mp old with rfl | old
    · exact ready.supplied due
    · exact settled fed old due
  · have total : owed feeds places done = fun other =>
        owed feeds places (place :: done) other + (feeds place).count other := by
      funext other
      rw [owed, split.count_eq, List.count_append, owed, Nat.add_comm]
    rw [← total]
    refine ⟨tracks.counted, ?_, (List.nodup_cons.mp once).2, (List.pairwise_cons.mp sorted).2⟩
    intro other
    have remaining : other ∈ rest ↔ other ∈ state.ready ∧ other ≠ place := by
      rw [queue, List.mem_cons]
      constructor
      · intro listed
        refine ⟨Or.inr listed, ?_⟩
        rintro rfl
        exact (List.nodup_cons.mp once).1 listed
      · rintro ⟨listed, apart⟩
        exact listed.resolve_left apart
    rw [remaining, tracks.waiting, List.mem_cons, not_or]
    tauto

/-- Listing the first place of the queue and supplying what it feeds. It is the step
of the induction over a listing. -/
theorem Tracks.next (ranks : Ranks earlier) (distinct : places.Nodup)
    (closed : ∀ place ∈ places, ∀ fed ∈ feeds place, fed ∈ places) {done rest : List Nat}
    {place : Nat} {state : Readiness}
    (tracks : Tracks earlier places done (owed feeds places done) state)
    (settled : ∀ old ∈ done, old ∉ outstanding feeds places done)
    (queue : state.ready = place :: rest) :
    Tracks earlier places (place :: done) (owed feeds places (place :: done))
      ((feeds place).foldl (Readiness.supply earlier) { state with ready := rest }) := by
  obtain ⟨within, taken⟩ := tracks.take distinct closed settled queue
  exact Tracks.supplyAll ranks within taken

/-- Given steps enough, the algorithm makes the listing, and its counters hold what is owed
at the end. -/
theorem list_listing (ranks : Ranks earlier) (distinct : places.Nodup)
    (closed : ∀ place ∈ places, ∀ fed ∈ feeds place, fed ∈ places) {steps : Nat}
    {done : List Nat} {state : Readiness}
    (tracks : Tracks earlier places done (owed feeds places done) state)
    (settled : ∀ old ∈ done, old ∉ outstanding feeds places done)
    (enough : (places.filter (· ∉ done)).length ≤ steps) :
    Listing earlier feeds places done (list earlier feeds steps state).1 ∧
      Tracks earlier places ((list earlier feeds steps state).1.reverse ++ done)
        (owed feeds places ((list earlier feeds steps state).1.reverse ++ done))
        (list earlier feeds steps state).2 := by
  induction steps generalizing done state with
  | zero =>
    refine ⟨.finished ?_, by simpa [list] using tracks⟩
    intro place ready
    have chosen : place ∈ places.filter (· ∉ done) := by simpa using ⟨ready.member, ready.unlisted⟩
    have present := List.length_pos_of_mem chosen
    omega
  | succ steps inductionHypothesis =>
    unfold list
    cases queue : state.ready with
    | nil =>
      refine ⟨.finished ?_, by simpa using tracks⟩
      intro place ready
      have waits := tracks.ready_iff.mpr ready
      simp [queue] at waits
    | cons place rest =>
      have ready : Ready feeds places done place := tracks.ready_iff.mp (by simp [queue])
      have sorted : (place :: rest).Pairwise fun left right => earlier left right = true :=
        queue ▸ tracks.sorted
      have fewer : (places.filter (· ∉ place :: done)).length ≤ steps := by
        have chosen : place ∈ places.filter (· ∉ done) := by
          simpa using ⟨ready.member, ready.unlisted⟩
        rw [← erase_unlisted distinct, List.length_erase_of_mem chosen]
        omega
      obtain ⟨listing, final⟩ := inductionHypothesis
        (tracks.next ranks distinct closed settled queue) (settled_next ready settled) fewer
      refine ⟨.next ready ?_ listing, by simpa using final⟩
      intro other waits
      have queued := tracks.ready_iff.mpr waits
      rw [queue] at queued
      rcases List.mem_cons.mp queued with rfl | behind
      · exact (ranks.total other other).elim id id
      · exact (List.pairwise_cons.mp sorted).1 other behind

/-- The states that a listing comes through, supply by supply. -/
def moments (earlier : Nat → Nat → Bool) (feeds : Nat → List Nat) :
    Nat → Readiness → List Readiness
  | 0, state => [state]
  | steps + 1, state =>
    match state.ready with
    | [] => [state]
    | place :: rest =>
      let taken := { state with ready := rest }
      supplying earlier (feeds place) taken ++
        moments earlier feeds steps ((feeds place).foldl (supply earlier) taken)

/-- The last of them is the state in which the listing ends. Nothing happens after
it. -/
theorem getLast?_moments (steps : Nat) (state : Readiness) :
    (moments earlier feeds steps state).getLast? = some (list earlier feeds steps state).2 := by
  induction steps generalizing state with
  | zero => rfl
  | succ steps inductionHypothesis =>
    unfold moments list
    cases queue : state.ready with
    | nil => rfl
    | cons place rest =>
      rw [List.getLast?_append, inductionHypothesis]
      rfl

/-- Every supply goes to a place that misses one, so no counter is ever below zero.
By induction on the steps, with every moment between two supplies looked at. -/
theorem moments_counted (ranks : Ranks earlier) (distinct : places.Nodup)
    (closed : ∀ place ∈ places, ∀ fed ∈ feeds place, fed ∈ places) {steps : Nat}
    {done : List Nat} {state : Readiness}
    (tracks : Tracks earlier places done (owed feeds places done) state)
    (settled : ∀ old ∈ done, old ∉ outstanding feeds places done) (counted : state.Counted) :
    ∀ moment ∈ moments earlier feeds steps state, moment.Counted := by
  induction steps generalizing done state with
  | zero => simpa [moments] using counted
  | succ steps inductionHypothesis =>
    unfold moments
    cases queue : state.ready with
    | nil => simpa using counted
    | cons place rest =>
      have ready : Ready feeds places done place := tracks.ready_iff.mp (by simp [queue])
      obtain ⟨within, taken⟩ := tracks.take distinct closed settled queue
      obtain ⟨final, between⟩ := Tracks.supplying_counted ranks within taken counted
      have others := inductionHypothesis (tracks.next ranks distinct closed settled queue)
        (settled_next ready settled) final
      exact List.forall_mem_append.mpr ⟨between, others⟩

end List

section Listing

variable {earlier : Nat → Nat → Bool} {feeds : Nat → List Nat} {places done rest : List Nat}

/-- Only places that take part are listed. A place that is ready is one of them. -/
theorem Listing.subset (listing : Listing earlier feeds places done rest) {place : Nat}
    (listed : place ∈ rest) : place ∈ places := by
  induction listing with
  | finished => exact absurd listed List.not_mem_nil
  | next ready _ _ inductionHypothesis =>
    rcases List.mem_cons.mp listed with rfl | listed
    · exact ready.member
    · exact inductionHypothesis listed

/-- What is listed already is not listed again. A place that is ready is none of
those. -/
theorem Listing.unlisted (listing : Listing earlier feeds places done rest) {place : Nat}
    (listed : place ∈ rest) : place ∉ done := by
  induction listing with
  | finished => exact absurd listed List.not_mem_nil
  | next ready _ _ inductionHypothesis =>
    rcases List.mem_cons.mp listed with rfl | listed
    · exact ready.unlisted
    · intro old
      exact inductionHypothesis listed (List.mem_cons_of_mem _ old)

/-- No place is listed twice, since a place that comes next was not listed before. -/
theorem Listing.nodup (listing : Listing earlier feeds places done rest) : rest.Nodup := by
  induction listing with
  | finished => exact List.nodup_nil
  | next _ _ others inductionHypothesis =>
    refine List.nodup_cons.mpr ⟨?_, inductionHypothesis⟩
    intro again
    exact others.unlisted again List.mem_cons_self

/-- No place is fed by one that is listed after it. It would not have been ready
when it was listed. -/
theorem Listing.unfed (listing : Listing earlier feeds places done rest) :
    rest.Pairwise fun first second => first ∉ feeds second := by
  induction listing with
  | finished => exact List.Pairwise.nil
  | next ready _ others inductionHypothesis =>
    refine List.Pairwise.cons ?_ inductionHypothesis
    intro later listed fed
    apply ready.supplied
    refine mem_outstanding_iff.mpr ⟨later, others.subset listed, ?_, fed⟩
    intro old
    exact others.unlisted listed (List.mem_cons_of_mem _ old)

/-- At every position stands the earliest of the places that were ready then. This
is what makes the listing the only one. -/
theorem Listing.earliest {before after : List Nat} {place : Nat}
    (listing : Listing earlier feeds places done (before ++ place :: after)) :
    Ready feeds places (before.reverse ++ done) place ∧
      ∀ other, Ready feeds places (before.reverse ++ done) other → earlier place other = true := by
  induction before generalizing done with
  | nil =>
    cases listing with
    | next ready first _ => exact ⟨ready, first⟩
  | cons head before inductionHypothesis =>
    cases listing with
    | next _ _ others => simpa using inductionHypothesis others

/-- At the end no place is ready. Whatever is left waits for something else that is
left. -/
theorem Listing.exhausted (listing : Listing earlier feeds places done rest) (place : Nat) :
    ¬ Ready feeds places (rest.reverse ++ done) place := by
  induction listing with
  | finished exhausted => exact exhausted place
  | next _ _ _ inductionHypothesis => simpa using inductionHypothesis

/-- At the end nothing is owed to a place that is listed. By induction along the
listing. -/
theorem Listing.settled (listing : Listing earlier feeds places done rest)
    (start : ∀ old ∈ done, old ∉ outstanding feeds places done) :
    ∀ old ∈ rest.reverse ++ done, old ∉ outstanding feeds places (rest.reverse ++ done) := by
  induction listing with
  | finished => simpa using start
  | @next done rest place ready _ _ inductionHypothesis =>
    simpa using inductionHypothesis (settled_next ready start)

end Listing

section Cycles

open Relation

variable {earlier : Nat → Nat → Bool} {feeds : Nat → List Nat} {places rest : List Nat}

/-- One place takes part and feeds another. -/
def Fed (feeds : Nat → List Nat) (places : List Nat) (feeder fed : Nat) : Prop :=
  feeder ∈ places ∧ fed ∈ feeds feeder

/-- A place is fed in a circle if it feeds itself, directly or through others, or is fed by such
a place. -/
def Circular (feeds : Nat → List Nat) (places : List Nat) (place : Nat) : Prop :=
  ∃ origin, TransGen (Fed feeds places) origin origin ∧
    ReflTransGen (Fed feeds places) origin place

/-- Only finitely many places take part, so a chain of feeders can be without end only if it
runs in a circle. -/
theorem acc_fed_iff {place : Nat} : Acc (Fed feeds places) place ↔ ¬ Circular feeds places place := by
  constructor
  · rintro accessible ⟨origin, cycle, path⟩
    have start : Acc (Fed feeds places) origin :=
      path.head_induction_on accessible fun edge _ later => later.inv edge
    clear path
    induction start.transGen with
    | intro origin _ inductionHypothesis =>
      exact inductionHypothesis origin cycle cycle (start.inv_of_transGen cycle)
  · intro straight
    let Behind := { origin // ReflTransGen (Fed feeds places) origin place }
    let before (first second : Behind) : Prop := TransGen (Fed feeds places) first second
    have finite : Finite Behind := by
      refine Set.Finite.subset ((List.finite_toSet places).insert place) fun origin path => ?_
      rcases path.cases_head with same | ⟨_, edge, _⟩
      · exact .inl same
      · exact .inr edge.1
    have transitive : IsTrans Behind before := ⟨fun _ _ _ first second => first.trans second⟩
    have irreflexive : Std.Irrefl before := ⟨fun origin cycle => straight ⟨origin, cycle, origin.2⟩⟩
    have grounded := Finite.wellFounded_of_trans_of_irrefl before
    have every (origin : Behind) : Acc (Fed feeds places) origin := by
      induction origin using grounded.induction with
      | _ origin inductionHypothesis =>
        refine ⟨_, fun feeder edge => ?_⟩
        exact inductionHypothesis ⟨feeder, origin.2.head edge⟩ (.single edge)
    exact every ⟨place, .refl⟩

/-- A listed place is fed by places listed before it only. Going back from it comes
to an end. -/
theorem Listing.acc {done : List Nat} (listing : Listing earlier feeds places done rest)
    (start : ∀ old ∈ done, Acc (Fed feeds places) old) {place : Nat} (listed : place ∈ rest) :
    Acc (Fed feeds places) place := by
  induction listing with
  | finished => exact absurd listed List.not_mem_nil
  | @next done rest first ready _ _ inductionHypothesis =>
    have accessible : Acc (Fed feeds places) first := by
      refine ⟨first, fun feeder edge => start feeder ?_⟩
      by_contra waits
      exact ready.supplied (mem_outstanding_iff.mpr ⟨feeder, edge.1, waits, edge.2⟩)
    rcases List.mem_cons.mp listed with rfl | listed
    · exact accessible
    · exact inductionHypothesis (List.forall_mem_cons.mpr ⟨accessible, start⟩) listed

/-- A place that no chain of feeders without end leads to is listed. By induction on
the accessibility: its feeders are listed, so it is owed nothing. -/
theorem Listing.mem_of_acc (listing : Listing earlier feeds places [] rest) {place : Nat}
    (accessible : Acc (Fed feeds places) place) (member : place ∈ places) : place ∈ rest := by
  induction accessible with
  | intro place _ inductionHypothesis =>
    by_contra unlisted
    refine listing.exhausted place ⟨member, by simpa using unlisted, fun due => ?_⟩
    obtain ⟨feeder, takes, waits, fed⟩ := mem_outstanding_iff.mp due
    exact waits (by simpa using inductionHypothesis feeder ⟨takes, fed⟩ takes)

/-- The places that are listed are those that are not fed in a circle. Being fed in
a circle includes being behind one. -/
theorem Listing.mem_iff (listing : Listing earlier feeds places [] rest) {place : Nat}
    (member : place ∈ places) : place ∈ rest ↔ ¬ Circular feeds places place := by
  rw [← acc_fed_iff]
  exact ⟨listing.acc fun _ old => absurd old List.not_mem_nil,
    fun accessible => listing.mem_of_acc accessible member⟩

end Cycles

end Readiness

end RangeFold
