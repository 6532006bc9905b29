import RangeFold.Proofs.Pipeline.Schedules

/-!
# What hints mean

A hint at a name asks for every entry of that name to come first. The schedule takes it to mean
the last of them and owes the others nothing. Its order is the earliest one in which the last entry
of each hinted name comes first, and it honors the hints at the other entries just if it is also
the earliest one in which all of them are. Without an order, the entries on circles of such hints
and behind them are reported.

Where no two entries share a name, every entry is the last of its name.
-/

namespace RangeFold.Schedule

open Relation

variable {entries : List ScheduleEntry}

/-- The entry at the second place is hinted to run after the name of the entry at the first. -/
def Precedes (entries : List ScheduleEntry) (first second : Nat) : Prop :=
  ∃ before after, entries[first]? = some before ∧ entries[second]? = some after ∧
    before.id ∈ after.runsAfter

/-- No later entry has the name of the entry at the place. -/
def Latest (entries : List ScheduleEntry) (place : Nat) : Prop :=
  ∀ later, place < later → idAt entries later ≠ idAt entries place

/-- What the schedule makes of the hints: they mean the last entry of the name. -/
def Binds (entries : List ScheduleEntry) (first second : Nat) : Prop :=
  Precedes entries first second ∧ Latest entries first

/-- A place lies on a circle or comes after one. -/
def Stuck (before : Nat → Nat → Prop) (place : Nat) : Prop :=
  ∃ origin, TransGen before origin origin ∧ ReflTransGen before origin place

/-- With some places taken, a place can be taken next: it is free, and all places that come
before it are taken. -/
structure Open (entries : List ScheduleEntry) (before : Nat → Nat → Prop) (taken : List Nat)
    (place : Nat) : Prop where
  inside : place < entries.length
  free : place ∉ taken
  preceded : ∀ other, before other place → other ∈ taken

/-- Every place stands to the right of all places that come before it. -/
def Honored (before : Nat → Nat → Prop) (places : List Nat) : Prop :=
  ∀ first second, before first second → places.idxOf first < places.idxOf second

/-- An order of all places, each of them once. Of the places that could come next the one with
the least priority does, and of equal ones the one added first. -/
structure Ordered (entries : List ScheduleEntry) (before : Nat → Nat → Prop)
    (places : List Nat) : Prop where
  every : places.Perm (List.range entries.length)
  honored : Honored before places
  earliest : ∀ taken place rest, places = taken ++ place :: rest → Open entries before taken place ∧
    ∀ other, Open entries before taken other →
      priorityAt entries place < priorityAt entries other ∨
        priorityAt entries place = priorityAt entries other ∧ place ≤ other

/-- A place has the name of the entry there. -/
theorem idAt_eq_some_iff {id : String} {place : Nat} :
    idAt entries place = some id ↔ ∃ entry, entries[place]? = some entry ∧ entry.id = id :=
  Option.map_eq_some_iff

/-- Hints relate places of the schedule only. -/
theorem Precedes.inside {first second : Nat} (precedes : Precedes entries first second) :
    first < entries.length ∧ second < entries.length := by
  obtain ⟨_, _, found, foundOther, -⟩ := precedes
  exact ⟨(List.getElem?_eq_some_iff.mp found).1, (List.getElem?_eq_some_iff.mp foundOther).1⟩

/-- Of entries with different names each is the last of its name. The map from names
to places loses nothing then. -/
theorem latest_of_distinct (distinct : (entries.map ScheduleEntry.id).Nodup) {place : Nat}
    (inside : place < entries.length) : Latest entries place := by
  intro later behind same
  have named (other : Nat) : idAt entries other = (entries.map ScheduleEntry.id)[other]? := by
    rw [List.getElem?_map, idAt]
  have insideToo : later < entries.length := by
    by_contra beyond
    rw [idAt, idAt, List.getElem?_eq_none (by omega), List.getElem?_eq_getElem inside] at same
    cases same
  rw [named, named] at same
  exact List.nodup_iff_getElem?_ne_getElem?.mp distinct place later behind
    (by simpa using insideToo) same.symm

/-- A hint means the last entry of the name. Names are entered one after the other,
each over the one before. -/
theorem hintedPlace_eq_some_iff {id : String} {place : Nat} :
    hintedPlace entries id = some place ↔
      idAt entries place = some id ∧ Latest entries place := by
  let named := (entries.zipIdx.filter fun item => item.1.id == id).map Prod.snd
  have increasing : named.Pairwise (· < ·) := by
    have indices : (entries.zipIdx.map Prod.snd).Pairwise (· < ·) := by
      rw [List.zipIdx_map_snd]
      exact List.pairwise_lt_range'
    exact indices.sublist (List.filter_sublist.map Prod.snd)
  have member (other : Nat) : other ∈ named ↔ idAt entries other = some id := by
    simp [named, idAt, List.mk_mem_zipIdx_iff_getElem?]
  have last : hintedPlace entries id = named.getLast? := by
    rw [hintedPlace, List.getLast?_map]
  rw [last, List.getLast?_eq_some_iff]
  constructor
  · rintro ⟨before, split⟩
    have own := (member place).mp (by simp [split])
    refine ⟨own, fun later behind same => ?_⟩
    have listed := (member later).mpr (same.trans own)
    rw [split] at listed increasing
    rcases List.mem_append.mp listed with earlier | here
    · have := (List.pairwise_append.mp increasing).2.2 later earlier place (by simp)
      omega
    · have := List.mem_singleton.mp here
      omega
  · rintro ⟨own, latest⟩
    obtain ⟨before, after, split⟩ := List.append_of_mem ((member place).mpr own)
    refine ⟨before, ?_⟩
    cases after with
    | nil => exact split
    | cons later after =>
      rw [split] at increasing
      have behind : place < later :=
        (List.pairwise_cons.mp (List.pairwise_append.mp increasing).2.1).1 later (by simp)
      have listed := (member later).mp (by simp [split])
      exact absurd (listed.trans own.symm) (latest later behind)

/-- Between entries with different names all hints are taken as they are meant. Only
repeated names make a difference. -/
theorem binds_of_distinct (distinct : (entries.map ScheduleEntry.id).Nodup) :
    Binds entries = Precedes entries := by
  funext first second
  apply propext
  exact ⟨And.left, fun precedes =>
    ⟨precedes, latest_of_distinct distinct precedes.inside.1⟩⟩

/-- The supplies of the schedule are the hints as it takes them. What is known of
listings can thus be said of hints. -/
theorem fed_eq_binds :
    Readiness.Fed (successors entries) (List.range entries.length) = Binds entries := by
  funext first second
  apply propext
  simp only [Readiness.Fed, List.mem_range, mem_successors_iff, prerequisites, List.mem_filterMap,
    hintedPlace_eq_some_iff, idAt_eq_some_iff, Binds, Precedes]
  constructor
  · rintro ⟨-, after, found, _, hinted, ⟨before, foundBefore, rfl⟩, latest⟩
    exact ⟨⟨before, after, foundBefore, found, hinted⟩, latest⟩
  · rintro ⟨⟨before, after, foundBefore, found, hinted⟩, latest⟩
    exact ⟨(List.getElem?_eq_some_iff.mp foundBefore).1, after, found, before.id, hinted,
      ⟨before, foundBefore, rfl⟩, latest⟩

/-- The places the scheduler finds circular are those on a circle of hints or behind
one. -/
theorem circular_iff_stuck {place : Nat} :
    Readiness.Circular (successors entries) (List.range entries.length) place ↔
      Stuck (Binds entries) place := by
  rw [Readiness.Circular, fed_eq_binds, Stuck]

/-- The places the scheduler finds ready are those that are free and wait for
nothing. -/
theorem ready_iff_open {taken : List Nat} {place : Nat} :
    Readiness.Ready (successors entries) (List.range entries.length) taken place ↔
      Open entries (Binds entries) taken place := by
  have supplied : place ∉ Readiness.outstanding (successors entries)
      (List.range entries.length) taken ↔ ∀ other, Binds entries other place → other ∈ taken := by
    rw [Readiness.mem_outstanding_iff, ← fed_eq_binds]
    constructor
    · intro none other fed
      by_contra waits
      exact none ⟨other, fed.1, waits, fed.2⟩
    · rintro taking ⟨other, member, waits, fed⟩
      exact waits (taking other ⟨member, fed⟩)
  constructor
  · rintro ⟨member, free, none⟩
    exact ⟨List.mem_range.mp member, free, supplied.mp none⟩
  · rintro ⟨inside, free, taking⟩
    exact ⟨List.mem_range.mpr inside, free, supplied.mpr taking⟩

/-- A stuck place is one of the schedule, since the last hint on the way leads to
it. -/
theorem Stuck.inside {place : Nat} (stuck : Stuck (Binds entries) place) :
    place < entries.length := by
  obtain ⟨origin, cycle, path⟩ := stuck
  obtain ⟨_, -, last⟩ := TransGen.tail'_iff.mp (cycle.trans_left path)
  exact last.1.inside.2

/-- What comes before a place in an order without repetition stands to its left.
Positions are compared in this form where an order is given as a list. -/
theorem idxOf_lt_iff {left right : List Nat} {first second : Nat}
    (once : (left ++ second :: right).Nodup) :
    (left ++ second :: right).idxOf first < (left ++ second :: right).idxOf second ↔
      first ∈ left := by
  have absent : second ∉ left := fun member =>
    (List.nodup_append.mp once).2.2 second member second (by simp) rfl
  rw [List.idxOf_append_of_notMem absent, List.idxOf_cons_self]
  by_cases member : first ∈ left
  · rw [List.idxOf_append_of_mem member]
    simpa [member] using List.idxOf_lt_length_iff.mpr member
  · rw [List.idxOf_append_of_notMem member]
    simp [member]

/-- A listing of all places is their earliest order. At each step the place taken is
the least of those that wait for nothing. -/
theorem ordered_of_listing {places : List Nat}
    (run : Readiness.Listing (earlier entries) (successors entries) (List.range entries.length) []
      places) (every : places.Perm (List.range entries.length)) :
    Ordered entries (Binds entries) places := by
  have earliest (taken : List Nat) (place : Nat) (rest : List Nat)
      (split : places = taken ++ place :: rest) : Open entries (Binds entries) taken place ∧
        ∀ other, Open entries (Binds entries) taken other →
          earlier entries place other = true := by
    subst split
    obtain ⟨ready, first⟩ := run.earliest
    have same (other : Nat) : Readiness.Ready (successors entries) (List.range entries.length)
        (taken.reverse ++ []) other ↔ Open entries (Binds entries) taken other := by
      rw [ready_iff_open, List.append_nil]
      constructor <;> rintro ⟨inside, free, preceded⟩ <;>
        exact ⟨inside, by simpa using free, by simpa using preceded⟩
    exact ⟨(same place).mp ready, fun other able => first other ((same other).mpr able)⟩
  refine ⟨every, fun first second binds => ?_, fun taken place rest split => ?_⟩
  · obtain ⟨left, right, rfl⟩ := List.append_of_mem
      (every.mem_iff.mpr (List.mem_range.mpr binds.1.inside.2))
    exact (idxOf_lt_iff run.nodup).mpr ((earliest left second right rfl).1.preceded first binds)
  · obtain ⟨able, first⟩ := earliest taken place rest split
    refine ⟨able, fun other ableToo => ?_⟩
    simpa [earlier] using first other ableToo

/-- Without circles the order of a schedule is the earliest one that honors the hints as it takes
them. With circles the places on them and behind them are reported. -/
theorem order_verdict (entries : List ScheduleEntry) :
    (∀ place, ¬ TransGen (Binds entries) place place) ∧
        (∃ places, order entries = .ok places ∧ Ordered entries (Binds entries) places) ∨
      (∃ place, TransGen (Binds entries) place place) ∧
        ∃ (stuck : List Nat) (names : List String), order entries = .error (.orderingCycle names) ∧
          stuck.map (idAt entries) = names.map some ∧ stuck.Pairwise (· < ·) ∧
          ∀ place, place ∈ stuck ↔ Stuck (Binds entries) place := by
  obtain ⟨places, run, outcome⟩ := order_cases entries
  have listed (place : Nat) (inside : place < entries.length) :
      place ∈ places ↔ ¬ Stuck (Binds entries) place := by
    rw [run.mem_iff (List.mem_range.mpr inside), circular_iff_stuck]
  rcases outcome with ⟨every, ordered⟩ | ⟨partly, stuck, names, refused, shown, increasing, left⟩
  · refine .inl ⟨fun place cycle => ?_, places, ordered, ordered_of_listing run every⟩
    have behind : Stuck (Binds entries) place := ⟨place, cycle, .refl⟩
    exact (listed place behind.inside).mp
      (every.mem_iff.mpr (List.mem_range.mpr behind.inside)) behind
  · have behind (place : Nat) : place ∈ stuck ↔ Stuck (Binds entries) place := by
      rw [left]
      constructor
      · rintro ⟨inside, unlisted⟩
        by_contra free
        exact unlisted ((listed place inside).mpr free)
      · intro behind
        exact ⟨behind.inside, fun member => (listed place behind.inside).mp member behind⟩
    refine .inr ⟨?_, stuck, names, refused, shown, increasing, behind⟩
    by_contra straight
    refine partly ?_
    rw [List.perm_ext_iff_of_nodup run.nodup List.nodup_range]
    refine fun place => ⟨fun member => run.subset member, fun member => ?_⟩
    refine (listed place (List.mem_range.mp member)).mpr ?_
    rintro ⟨origin, cycle, -⟩
    exact straight ⟨origin, cycle⟩

/-- An order that is found is the earliest one. The scheduler answers with its
listing if that is complete. -/
theorem ordered_of_order {places : List Nat} (ordered : order entries = .ok places) :
    Ordered entries (Binds entries) places := by
  rcases order_verdict entries with ⟨-, others, same, earliest⟩ | ⟨-, _, _, refused, -⟩
  · obtain rfl := Except.ok.inj (same.symm.trans ordered)
    exact earliest
  · cases refused.symm.trans ordered

section Ordered

variable {before : Nat → Nat → Prop} {places : List Nat}

/-- The earliest order for some of the hints is the earliest for all of them just if it honors
all of them. -/
theorem Ordered.honored_iff (ordered : Ordered entries before places)
    {all : Nat → Nat → Prop} (weaker : ∀ first second, before first second → all first second) :
    Honored all places ↔ Ordered entries all places := by
  refine ⟨fun honored => ⟨ordered.every, honored, ?_⟩, Ordered.honored⟩
  rintro taken place rest rfl
  obtain ⟨able, first⟩ := ordered.earliest taken place rest rfl
  have once := ordered.every.nodup_iff.mpr List.nodup_range
  have preceded (other : Nat) (waits : all other place) : other ∈ taken :=
    (idxOf_lt_iff once).mp (honored other place waits)
  refine ⟨⟨able.inside, able.free, preceded⟩, fun other ableToo => ?_⟩
  exact first other ⟨ableToo.inside, ableToo.free, fun third waits =>
    ableToo.preceded third (weaker third other waits)⟩

end Ordered

end RangeFold.Schedule
