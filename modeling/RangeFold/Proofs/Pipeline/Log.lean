import RangeFold.Proofs.Pass.Provided
import RangeFold.Proofs.Pipeline.Advances

/-!
# What a run records

A run records every change under the pass and the sweep that are under way, and counts it under
the name of the pass. Passes leave the record to the run: of the journal they change the precision
of values at most. So the record of a run goes through the sweeps in turn, and through the places
of the schedule within each of them, and the counts are those of the record.

Names can repeat in a schedule, and a record holds names only. It is therefore spoken of together
with places of the schedule that its entries were made at.
-/

namespace RangeFold

open Attempt

variable {α β : Type}

namespace Journal

/-- A pass of a sweep is under way. -/
structure Under (pass : String) (sweep : Nat) (journal : Journal) : Prop where
  pass : journal.currentPass = some pass
  sweep : journal.sweep = sweep

/-- A number of changes were recorded, all of them by a pass in a sweep. -/
def Records (pass : String) (sweep made : Nat) (before after : Journal) : Prop :=
  ∃ entries, after.changes = before.changes ++ entries ∧ entries.length = made ∧
    ∀ entry ∈ entries, entry.pass = pass ∧ entry.sweep = sweep

section Records

variable {pass : String} {sweep made more : Nat} {before middle after : Journal}

/-- Leaving the changes alone is recording none, under any pass and sweep. -/
theorem records_none (same : after.changes = before.changes) :
    Records pass sweep 0 before after := ⟨[], by simp [same], rfl, by simp⟩

/-- Records of one pass in one sweep add up. -/
theorem Records.trans (first : Records pass sweep made before middle)
    (second : Records pass sweep more middle after) :
    Records pass sweep (made + more) before after := by
  obtain ⟨entries, changes, counted, under⟩ := first
  obtain ⟨others, further, countedOthers, underToo⟩ := second
  refine ⟨entries ++ others, ?_, ?_, ?_⟩
  · rw [further, changes, List.append_assoc]
  · rw [List.length_append, counted, countedOthers]
  · exact List.forall_mem_append.mpr ⟨under, underToo⟩

/-- A journal that is under way records a change on the account of its own pass and
sweep. -/
theorem Under.records_change (under : Under pass sweep before) (node : String) :
    Records pass sweep 1 before (before.recordChange node) := by
  refine ⟨[⟨pass, node, sweep⟩], ?_, rfl, by simp⟩
  rw [recordChange, under.pass, under.sweep]

/-- Recording a change does not change whose turn it is. -/
theorem Under.recordChange (under : Under pass sweep before) (node : String) :
    Under pass sweep (before.recordChange node) := by
  rw [Journal.recordChange, under.pass]
  exact ⟨rfl, under.sweep⟩

end Records

/-- A diagnostic is no change. -/
@[simp] theorem changes_addDiagnostic (journal : Journal) (pass node message : String) :
    (journal.addDiagnostic pass node message).changes = journal.changes := by
  unfold addDiagnostic
  split <;> rfl

/-- A diagnostic does not change whose turn it is. -/
theorem Under.addDiagnostic {journal : Journal} {pass : String} {sweep : Nat}
    (under : Under pass sweep journal) (own node message : String) :
    Under pass sweep (journal.addDiagnostic own node message) := by
  unfold Journal.addDiagnostic
  split
  · exact under
  · exact ⟨under.pass, under.sweep⟩

/-- A visit is no change. -/
@[simp] theorem changes_markVisited (journal : Journal) (id : NodeId) :
    (journal.markVisited id).changes = journal.changes := by
  unfold markVisited
  split <;> rfl

/-- A visit does not change whose turn it is. -/
theorem Under.markVisited {journal : Journal} {pass : String} {sweep : Nat}
    (under : Under pass sweep journal) (id : NodeId) :
    Under pass sweep (journal.markVisited id) := by
  unfold Journal.markVisited
  split
  · exact under
  · exact ⟨under.pass, under.sweep⟩

end Journal

section Discreet

/-- Of the journal at most the precision of values has changed. -/
def Progress.Noted (journal : Journal) (progress : Progress α) : Prop :=
  ∃ notes, progress.journal = { journal with precision := notes }

variable {journal : Journal}

/-- A step on the graph takes no notes. -/
theorem Progress.noted_onGraph (step : Attempt (Graph α) β) :
    Attempt.Keeps (Progress.Noted journal) (Progress.onGraph step) := fun _ noted => noted

/-- An annotation is a note, and nothing else of the journal is touched. -/
theorem Progress.noted_annotate (id : NodeId) (levels : Int) :
    Attempt.Keeps (Progress.Noted (α := α) journal)
      (Progress.note fun journal => journal.annotate id levels) := by
  rintro progress ⟨notes, same⟩
  refine ⟨(id, levels) :: notes.filter fun entry => entry.1 ≠ id, ?_⟩
  show progress.journal.annotate id levels = _
  rw [same, Journal.annotate]

/-- Taking notes records no change: that is left to the run. -/
theorem Progress.Noted.changes_eq {progress : Progress α}
    (noted : Progress.Noted journal progress) :
    progress.journal.changes = journal.changes := by
  obtain ⟨notes, same⟩ := noted
  rw [same]

/-- Taking notes does not change whose turn it is. -/
theorem Progress.Noted.under {progress : Progress α} (noted : Progress.Noted journal progress)
    {pass : String} {sweep : Nat} (under : journal.Under pass sweep) :
    progress.journal.Under pass sweep := by
  obtain ⟨notes, same⟩ := noted
  rw [same]
  exact ⟨under.pass, under.sweep⟩

/-- Whatever comes of it, the pass leaves the record to the run. -/
def Pass.Discreet (pass : Pass α) : Prop :=
  ∀ id progress, Progress.Noted progress.journal (pass.apply id progress).2

variable [Arithmetic α]

/-- Folding notes the levels of what it folds, at most. -/
theorem noted_foldRange (limit : Nat) (id : NodeId) :
    Attempt.Keeps (Progress.Noted journal) (foldRange limit id : Attempt (Progress α) Bool) := by
  refine keeps_bind (Progress.noted_onGraph _) fun graph => keeps_bind (keeps_lift _) fun node => ?_
  split
  · exact keeps_fail _
  · refine keeps_bind (keeps_lift _) fun range => ?_
    split
    · exact keeps_answer false
    · refine keeps_bind (keeps_lift _) fun _ => keeps_bind (keeps_lift _) fun value => ?_
      split
      · exact keeps_fail _
      · exact keeps_bind (Progress.noted_onGraph _) fun _ =>
          keeps_bind (Progress.noted_annotate _ _) fun _ => keeps_answer true

/-- A scripted pass takes no notes beyond those its script asks for. -/
theorem noted_perform (script : Script) (id : NodeId) :
    Attempt.Keeps (Progress.Noted journal)
      (script.perform id : Attempt (Progress α) Bool) := by
  refine keeps_bind keeps_read fun progress => ?_
  cases script.action with
  | decline => exact keeps_answer false
  | claim => exact keeps_answer true
  | rename => exact keeps_bind (Progress.noted_onGraph _) fun _ => keeps_answer true
  | remove => exact keeps_bind (Progress.noted_onGraph _) fun _ => keeps_answer true
  | bypass => exact keeps_bind (Progress.noted_onGraph _) fun _ => keeps_answer true
  | annotate => exact keeps_bind (Progress.noted_annotate _ _) fun _ => keeps_answer true
  | failLevels => exact keeps_fail _
  | failRange => exact keeps_fail _
  | failInternal => exact keeps_fail _

/-- Every provided pass leaves the record to the run. It may take notes on nodes and
nothing else. -/
theorem Pass.Provided.discreet {pass : Pass α} (provided : pass.Provided) : pass.Discreet := by
  intro id progress
  have unchanged : Progress.Noted progress.journal progress := ⟨_, rfl⟩
  cases provided with
  | elimination =>
    exact keeps_bind (Progress.noted_onGraph _) (fun _ => keeps_answer true) progress unchanged
  | scaling => exact Progress.noted_onGraph _ progress unchanged
  | shifting => exact Progress.noted_onGraph _ progress unchanged
  | folding limit => exact noted_foldRange limit id progress unchanged
  | scripted script => exact noted_perform script id progress unchanged

end Discreet

namespace Pipeline

open Journal

section Pass

variable {pass : Pass α} {sweep made : Nat} {progress after : Progress α}

/-- A check that passed has changed nothing. -/
theorem eq_of_checkAfter [Arithmetic α] {own node : String}
    (passed : checkAfter own node progress = (.ok (), after)) : after = progress := by
  rw [checkAfter, Progress.currentGraph_bind] at passed
  cases checked : progress.graph.check with
  | error failure => simp [checked] at passed
  | ok _ =>
    rw [checked] at passed
    exact (Prod.mk.inj passed).2.symm

variable (discreet : pass.Discreet)

include discreet

/-- Neither a pass nor the report of its failure records anything. Recording is left
to what comes after it. -/
theorem silent_apply {id : NodeId} {node : String} {changed : Bool}
    (under : Under pass.id sweep progress.journal)
    (applied : (pass.apply id).orElse (declined pass.id node) progress = (.ok changed, after)) :
    after.journal.changes = progress.journal.changes ∧ Under pass.id sweep after.journal := by
  have noted := discreet id progress
  rcases orElse_succeeds_iff.mp applied with succeeded | ⟨failure, middle, failed, handled⟩
  · rw [succeeded] at noted
    exact ⟨noted.changes_eq, noted.under under⟩
  · rw [failed] at noted
    rw [declined] at handled
    split at handled
    · obtain rfl : _ = after := (Prod.mk.inj handled).2
      exact ⟨(Journal.changes_addDiagnostic _ _ _ _).trans noted.changes_eq,
        (noted.under under).addDiagnostic _ _ _⟩
    · cases (Prod.mk.inj handled).1

variable [Arithmetic α]

/-- An application that the run survives records as many changes as it is counted
with. -/
theorem applyAt_records {checks : Bool} {id : NodeId}
    (under : Under pass.id sweep progress.journal)
    (ran : applyAt checks pass id progress = (.ok made, after)) :
    Records pass.id sweep made progress.journal after.journal ∧
      Under pass.id sweep after.journal := by
  rw [applyAt, Progress.currentGraph_bind] at ran
  obtain ⟨changed, middle, applied, rest⟩ := bind_succeeds_iff.mp ran
  obtain ⟨silent, underToo⟩ := silent_apply discreet under applied
  cases changed with
  | false =>
    obtain ⟨same, rfl⟩ := Prod.mk.inj rest
    obtain rfl := Except.ok.inj same
    exact ⟨records_none silent, underToo⟩
  | true =>
    have recorded : ((.ok 1, ⟨middle.graph,
        middle.journal.recordChange (progress.graph.displayName id)⟩) :
          Except Failure Nat × Progress α) = (.ok made, after) := by
      cases checks with
      | false => exact rest
      | true =>
        obtain ⟨_, checked, passed, noted⟩ := bind_succeeds_iff.mp rest
        obtain rfl := eq_of_checkAfter passed
        exact noted
    obtain ⟨same, rfl⟩ := Prod.mk.inj recorded
    obtain rfl := Except.ok.inj same
    have first : Records pass.id sweep 0 progress.journal middle.journal := records_none silent
    exact ⟨by simpa using first.trans (underToo.records_change _), underToo.recordChange _⟩

/-- A visit records as many changes as it is counted with. -/
theorem visit_records {checks : Bool} {id : NodeId} (under : Under pass.id sweep progress.journal)
    (ran : visit checks pass id progress = (.ok made, after)) :
    Records pass.id sweep made progress.journal after.journal ∧
      Under pass.id sweep after.journal := by
  rw [visit, read_bind] at ran
  split at ran
  · obtain ⟨same, rfl⟩ := Prod.mk.inj ran
    obtain rfl := Except.ok.inj same
    exact ⟨records_none rfl, under⟩
  · obtain ⟨_, marked, marking, rest⟩ := bind_succeeds_iff.mp ran
    obtain rfl : _ = marked := (Prod.mk.inj marking).2
    split at rest
    · obtain ⟨⟨entries, changes, recorded⟩, underToo⟩ :=
        applyAt_records discreet (under.markVisited id) rest
      exact ⟨⟨entries, by simpa using changes, recorded⟩, underToo⟩
    · obtain ⟨same, rfl⟩ := Prod.mk.inj rest
      obtain rfl := Except.ok.inj same
      exact ⟨records_none (by simp), under.markVisited id⟩

/-- Visits record as many changes as they are counted with, by induction on the
nodes that are left. -/
theorem visitEach_records {checks : Bool} {ids : List NodeId}
    (under : Under pass.id sweep progress.journal)
    (ran : visitEach checks pass ids progress = (.ok made, after)) :
    Records pass.id sweep made progress.journal after.journal := by
  induction ids generalizing progress made with
  | nil =>
    obtain ⟨same, rfl⟩ := Prod.mk.inj ran
    obtain rfl := Except.ok.inj same
    exact records_none rfl
  | cons id rest inductionHypothesis =>
    rw [visitEach] at ran
    obtain ⟨first, middle, visiting, others⟩ := bind_succeeds_iff.mp ran
    obtain ⟨more, final, going, last⟩ := bind_succeeds_iff.mp others
    obtain ⟨same, rfl⟩ := Prod.mk.inj last
    obtain rfl := Except.ok.inj same
    obtain ⟨recorded, underToo⟩ := visit_records discreet under visiting
    exact recorded.trans (inductionHypothesis underToo going)

/-- One pass of a sweep records as many changes as it counts. All of them stand
under its name and in its sweep. -/
theorem runPass_records {checks : Bool}
    (ran : runPass checks sweep pass progress = (.ok made, after)) :
    Records pass.id sweep made progress.journal after.journal := by
  rw [runPass, Progress.currentGraph_bind] at ran
  split at ran
  · let begun : Progress α := ⟨progress.graph, progress.journal.beginPass pass.id sweep⟩
    have started : Under pass.id sweep begun.journal := ⟨rfl, rfl⟩
    have visited :
        visitEach checks pass progress.graph.reverseOrder begun = (.ok made, after) := ran
    have recorded := visitEach_records discreet started visited
    exact recorded
  · obtain ⟨same, rfl⟩ := Prod.mk.inj ran
    obtain rfl := Except.ok.inj same
    exact records_none rfl

end Pass

section Counts

variable {counts made : List (String × Nat)}

/-- The number of changes that are counted under a name. -/
def countOf (id : String) (counts : List (String × Nat)) : Nat :=
  tally (counts.filter fun entry => entry.1 = id)

/-- The count under a name splits off the first entry. -/
theorem countOf_cons (id : String) (entry : String × Nat) :
    countOf id (entry :: counts) = (if entry.1 = id then entry.2 else 0) + countOf id counts := by
  by_cases same : entry.1 = id <;> simp [countOf, tally, same]

/-- Counting a name up raises its own count and no other. -/
theorem countOf_addCount (id key : String) (count : Nat) :
    countOf id (addCount key count counts) =
      countOf id counts + if key = id then count else 0 := by
  induction counts with
  | nil => rw [addCount, countOf_cons, Nat.add_comm]
  | cons entry rest inductionHypothesis =>
    unfold addCount
    split
    · rename_i same
      subst same
      simp only [countOf_cons]
      split <;> omega
    · rw [countOf_cons, countOf_cons, inductionHypothesis, Nat.add_assoc]

/-- Adding the counts of a sweep raises the count under each name by that of the
sweep. -/
theorem countOf_add (id : String) (made : List (String × Nat)) :
    countOf id (made.foldl (fun counts (key, count) => addCount key count counts) counts) =
      countOf id counts + countOf id made := by
  induction made generalizing counts with
  | nil => rfl
  | cons entry rest inductionHypothesis =>
    rw [List.foldl_cons, inductionHypothesis, countOf_addCount, countOf_cons, Nat.add_assoc]

/-- An old name keeps its place, a new one comes last. Counts are kept in the order
in which names were met. -/
theorem keys_addCount (id : String) (count : Nat) :
    (addCount id count counts).map Prod.fst =
      if id ∈ counts.map Prod.fst then counts.map Prod.fst else counts.map Prod.fst ++ [id] := by
  induction counts with
  | nil => rfl
  | cons entry rest inductionHypothesis =>
    unfold addCount
    by_cases same : entry.1 = id
    · simp [same]
    · rw [if_neg same, List.map_cons, inductionHypothesis, List.map_cons]
      have apart : id ∈ entry.1 :: rest.map Prod.fst ↔ id ∈ rest.map Prod.fst := by
        simp [Ne.symm same]
      simp only [apart]
      split <;> rfl

/-- Counting further changes under known names adds no names. After the start the
names are fixed. -/
theorem keys_add (known : ∀ entry ∈ made, entry.1 ∈ counts.map Prod.fst) :
    (made.foldl (fun counts (key, count) => addCount key count counts) counts).map Prod.fst =
      counts.map Prod.fst := by
  induction made generalizing counts with
  | nil => rfl
  | cons entry rest inductionHypothesis =>
    obtain ⟨own, others⟩ := List.forall_mem_cons.mp known
    have same : (addCount entry.1 entry.2 counts).map Prod.fst = counts.map Prod.fst := by
      rw [keys_addCount, if_pos own]
    rw [List.foldl_cons, inductionHypothesis (same ▸ others), same]

/-- A run starts with a count of zero for each name of the schedule. A name that is
scheduled several times is entered once. -/
theorem keys_start (passes : List (Pass α)) :
    (passes.foldl (fun counts pass => addCount pass.id 0 counts) []).map Prod.fst =
      (passes.map Pass.id).eraseDups := by
  induction passes using List.reverseRecOn with
  | nil => rfl
  | append_singleton rest pass inductionHypothesis =>
    rw [List.foldl_append, List.foldl_cons, List.foldl_nil, keys_addCount, inductionHypothesis,
      List.map_append, List.eraseDups_append]
    generalize rest.map Pass.id = names
    by_cases known : pass.id ∈ names
    · simp [List.removeAll, List.mem_eraseDups, known]
    · simp [List.removeAll, List.mem_eraseDups, List.eraseDups_cons, known]

/-- At the start every pass is counted with zero. -/
theorem countOf_start (id : String) (passes : List (Pass α)) :
    countOf id (passes.foldl (fun counts pass => addCount pass.id 0 counts) []) = 0 := by
  induction passes using List.reverseRecOn with
  | nil => rfl
  | append_singleton rest pass inductionHypothesis =>
    rw [List.foldl_append, List.foldl_cons, List.foldl_nil, countOf_addCount, inductionHypothesis]
    simp

/-- At the start every name has one entry, also if several passes share it. -/
theorem nodup_keys_start (passes : List (Pass α)) :
    ((passes.foldl (fun counts pass => addCount pass.id 0 counts) []).map Prod.fst).Nodup := by
  induction passes using List.reverseRecOn with
  | nil => exact List.nodup_nil
  | append_singleton rest pass inductionHypothesis =>
    rw [List.foldl_append, List.foldl_cons, List.foldl_nil, keys_addCount]
    split
    · exact inductionHypothesis
    · rename_i new
      exact List.nodup_append.mpr ⟨inductionHypothesis, List.nodup_singleton _, by
        rintro key member _ own rfl
        exact new (List.mem_singleton.mp own ▸ member)⟩

/-- Counts under different names are a function of the name. Two lists of counts
over the same names can then be compared name by name. -/
theorem eq_map_countOf (once : (counts.map Prod.fst).Nodup) :
    counts = (counts.map Prod.fst).map fun id => (id, countOf id counts) := by
  induction counts with
  | nil => rfl
  | cons entry rest inductionHypothesis =>
    obtain ⟨absent, onceRest⟩ := List.nodup_cons.mp once
    have none : countOf entry.1 rest = 0 := by
      rw [countOf, List.filter_eq_nil_iff.mpr]
      · rfl
      · intro other member same
        exact absent (List.mem_map.mpr ⟨other, member, of_decide_eq_true same⟩)
    rw [List.map_cons, List.map_cons, countOf_cons, if_pos rfl, none, Nat.add_zero]
    congr 1
    conv_lhs => rw [inductionHypothesis onceRest]
    refine List.map_congr_left fun id member => ?_
    have apart : entry.1 ≠ id := fun same => absent (same ▸ member)
    rw [countOf_cons, if_neg apart, Nat.zero_add]

end Counts

section Sweeps

variable {names : List String} {made counts : List (String × Nat)} {before middle after : Journal}
  {placed rest : List (Change × Nat)}

/-- One change was made before another or at the same place: in an earlier sweep, or in the same
one at a place that does not come later. -/
def Upto (earlier later : Change × Nat) : Prop :=
  earlier.1.sweep < later.1.sweep ∨ earlier.1.sweep = later.1.sweep ∧ earlier.2 ≤ later.2

/-- The record of one sweep over passes of given names, with the places that the changes were made
at. -/
structure SweepRecord (names : List String) (sweep : Nat) (made : List (String × Nat))
    (before after : Journal) (placed : List (Change × Nat)) : Prop where
  changes : after.changes = before.changes ++ placed.map Prod.fst
  named : ∀ entry ∈ placed, names[entry.2]? = some entry.1.pass
  swept : ∀ entry ∈ placed, entry.1.sweep = sweep
  ordered : placed.Pairwise fun earlier later => earlier.2 ≤ later.2
  total : tally made = placed.length
  counted : ∀ id, countOf id made = placed.countP fun entry => entry.1.pass = id
  keys : made.map Prod.fst = names

/-- A sweep over no passes records nothing. -/
theorem SweepRecord.nil {sweep : Nat} : SweepRecord [] sweep [] before before [] where
  changes := by simp
  named := by simp
  swept := by simp
  ordered := .nil
  total := rfl
  counted _ := rfl
  keys := rfl

/-- What the first pass of a sweep records stands at the first place, and what the others do at
the places behind it. -/
theorem SweepRecord.cons {pass : String} {sweep count : Nat}
    (first : Records pass sweep count before middle)
    (others : SweepRecord names sweep made middle after rest) :
    ∃ placed, SweepRecord (pass :: names) sweep ((pass, count) :: made) before after placed := by
  obtain ⟨entries, changes, counted, under⟩ := first
  -- The first pass stands at place 0 and moves the others up by one.
  refine ⟨entries.map (fun entry => (entry, 0)) ++ rest.map fun entry => (entry.1, entry.2 + 1),
    ?_, ?_, ?_, ?_, ?_, fun id => ?_, ?_⟩
  · rw [others.changes, changes]
    simp [Function.comp_def]
  · rintro entry member
    rcases List.mem_append.mp member with own | other
    · obtain ⟨change, listed, rfl⟩ := List.mem_map.mp own
      simp [(under change listed).1]
    · obtain ⟨change, listed, rfl⟩ := List.mem_map.mp other
      simpa using others.named change listed
  · rintro entry member
    rcases List.mem_append.mp member with own | other
    · obtain ⟨change, listed, rfl⟩ := List.mem_map.mp own
      exact (under change listed).2
    · obtain ⟨change, listed, rfl⟩ := List.mem_map.mp other
      exact others.swept change listed
  · refine List.pairwise_append.mpr ⟨?_, ?_, ?_⟩
    · exact List.pairwise_map.mpr (List.pairwise_of_forall fun _ _ => le_rfl)
    · exact List.pairwise_map.mpr (others.ordered.imp Nat.succ_le_succ)
    · intro earlier own later _
      obtain ⟨change, -, rfl⟩ := List.mem_map.mp own
      exact Nat.zero_le _
  · have total := others.total
    simp only [tally] at total
    simp [tally, total, counted]
  · rw [countOf_cons, others.counted, List.countP_append, List.countP_map, List.countP_map]
    congr 1
    by_cases same : pass = id
    · rw [if_pos same, ← counted, eq_comm]
      refine List.countP_eq_length.mpr fun entry listed => ?_
      simp [(under entry listed).1, same]
    · rw [if_neg same, eq_comm]
      refine List.countP_eq_zero.mpr fun entry listed => ?_
      simp [(under entry listed).1, same]
  · rw [List.map_cons, others.keys]

/-- The record of a run over passes of given names, after some sweeps of it. -/
structure RunRecord (names : List String) (done remaining : Nat) (counts : List (String × Nat))
    (totals : SweepTotals) (before after : Journal) (placed : List (Change × Nat)) : Prop where
  changes : after.changes = before.changes ++ placed.map Prod.fst
  named : ∀ entry ∈ placed, names[entry.2]? = some entry.1.pass
  swept : ∀ entry ∈ placed, done < entry.1.sweep ∧ entry.1.sweep ≤ totals.sweeps
  ordered : placed.Pairwise Upto
  counted : ∀ id, countOf id totals.counts =
    countOf id counts + placed.countP fun entry => entry.1.pass = id
  keys : totals.counts.map Prod.fst = counts.map Prod.fst
  busy : ∀ sweep, done < sweep → sweep ≤ totals.sweeps →
    ((∃ entry ∈ placed, entry.1.sweep = sweep) ↔
      sweep < totals.sweeps ∨ totals.converged = false)
  limited : totals.sweeps ≤ done + remaining
  exhausted : totals.converged = false → totals.sweeps = done + remaining
  progressed : totals.converged = true → done < totals.sweeps

/-- Without sweeps left the run ends as it is. It has not converged. -/
theorem RunRecord.nil {done : Nat} :
    RunRecord names done 0 counts ⟨counts, done, false⟩ before before [] where
  changes := by simp
  named := by simp
  swept := by simp
  ordered := .nil
  counted _ := rfl
  keys := rfl
  busy sweep := by
    intro later within
    have within : sweep ≤ done := within
    omega
  limited := le_rfl
  exhausted _ := rfl
  progressed converged := absurd converged Bool.false_ne_true

section Known

variable {done remaining : Nat} (known : ∀ id ∈ names, id ∈ counts.map Prod.fst)
  (sweep : SweepRecord names (done + 1) made before middle placed)

include known sweep

/-- The counts of a sweep bring in no names, since every pass was entered at the
start. -/
theorem SweepRecord.keys_add : (made.foldl (fun counts (key, count) => addCount key count counts)
    counts).map Prod.fst = counts.map Prod.fst := by
  refine Pipeline.keys_add fun entry member => known _ ?_
  rw [← sweep.keys]
  exact List.mem_map_of_mem member

/-- A sweep without changes is the last one. The run has converged with it. -/
theorem SweepRecord.last (none : tally made = 0) :
    RunRecord names done (remaining + 1) counts
      ⟨made.foldl (fun counts (key, count) => addCount key count counts) counts, done + 1, true⟩
      before middle [] := by
  have empty : placed = [] := List.length_eq_zero_iff.mp (sweep.total.symm.trans none)
  subst empty
  refine ⟨sweep.changes, by simp, by simp, .nil, fun id => ?_, sweep.keys_add known, ?_, ?_,
    fun unfinished => absurd unfinished.symm Bool.false_ne_true, fun _ => Nat.lt_succ_self done⟩
  · rw [countOf_add, sweep.counted]
  · intro sweep later within
    have within : sweep ≤ done + 1 := within
    simp
    omega
  · show done + 1 ≤ done + (remaining + 1)
    omega

/-- After a sweep with changes the run goes on. What the others record comes behind
its changes. -/
theorem SweepRecord.followed {totals : SweepTotals} (some : tally made ≠ 0)
    (others : RunRecord names (done + 1) remaining
      (made.foldl (fun counts (key, count) => addCount key count counts) counts) totals middle after
      rest) : RunRecord names done (remaining + 1) counts totals before after (placed ++ rest) := by
  have later : done + 1 ≤ totals.sweeps := by
    cases ended : totals.converged with
    | true => exact (others.progressed ended).le
    | false =>
      have := others.exhausted ended
      omega
  refine ⟨?_, ?_, ?_, ?_, fun id => ?_, others.keys.trans (sweep.keys_add known), ?_, ?_, ?_, ?_⟩
  · rw [others.changes, sweep.changes, List.map_append, List.append_assoc]
  · exact List.forall_mem_append.mpr ⟨sweep.named, others.named⟩
  · refine List.forall_mem_append.mpr ⟨fun entry member => ?_, fun entry member => ?_⟩
    · rw [sweep.swept entry member]
      omega
    · have := others.swept entry member
      omega
  · refine List.pairwise_append.mpr ⟨?_, others.ordered, fun earlier own later other => ?_⟩
    · refine sweep.ordered.imp_of_mem fun own other upto => .inr ⟨?_, upto⟩
      rw [sweep.swept _ own, sweep.swept _ other]
    · have here := sweep.swept earlier own
      have there := (others.swept later other).1
      exact .inl (by omega)
  · rw [others.counted, countOf_add, sweep.counted, List.countP_append, Nat.add_assoc]
  · -- This sweep is busy because it made a change, a later one as the rest records it.
    intro number started within
    by_cases here : number = done + 1
    · subst here
      refine iff_of_true ?_ ?_
      · obtain ⟨entry, member⟩ := List.exists_mem_of_ne_nil placed fun empty =>
          some (by rw [sweep.total, empty, List.length_nil])
        exact ⟨entry, List.mem_append_left _ member, sweep.swept entry member⟩
      · cases ended : totals.converged with
        | true => exact .inl (others.progressed ended)
        | false => exact .inr rfl
    · rw [← others.busy number (by omega) within]
      constructor
      · rintro ⟨entry, member, same⟩
        rcases List.mem_append.mp member with own | other
        · exact absurd (same.symm.trans (sweep.swept entry own)) here
        · exact ⟨entry, other, same⟩
      · rintro ⟨entry, member, same⟩
        exact ⟨entry, List.mem_append_right _ member, same⟩
  · have := others.limited
    omega
  · intro unfinished
    have := others.exhausted unfinished
    omega
  · intro ended
    omega

end Known

variable [Arithmetic α] {passes : List (Pass α)} (discreet : ∀ pass ∈ passes, pass.Discreet)
  {checks : Bool} {progress final : Progress α}

include discreet

/-- One sweep records the changes of its passes in turn. By induction on the passes,
the place of each telling its changes apart. -/
theorem runSweep_record {sweep : Nat}
    (ran : runSweep checks sweep passes progress = (.ok made, final)) :
    ∃ placed, SweepRecord (passes.map Pass.id) sweep made progress.journal final.journal
      placed := by
  induction passes generalizing progress made with
  | nil =>
    obtain ⟨same, rfl⟩ := Prod.mk.inj ran
    obtain rfl := Except.ok.inj same
    exact ⟨[], .nil⟩
  | cons pass rest inductionHypothesis =>
    obtain ⟨discreetPass, discreetRest⟩ := List.forall_mem_cons.mp discreet
    rw [runSweep] at ran
    obtain ⟨count, middle, running, others⟩ := bind_succeeds_iff.mp ran
    obtain ⟨more, last, going, answer⟩ := bind_succeeds_iff.mp others
    obtain ⟨same, rfl⟩ := Prod.mk.inj answer
    obtain rfl := Except.ok.inj same
    obtain ⟨placed, recorded⟩ := inductionHypothesis discreetRest going
    exact recorded.cons (runPass_records discreetPass running)

/-- The sweeps of a run record their changes in turn. All but the last have changes, and the last
one has some just if the limit ended the run. -/
theorem runSweeps_record {remaining done : Nat} {totals : SweepTotals}
    (known : ∀ id ∈ passes.map Pass.id, id ∈ counts.map Prod.fst)
    (ran : runSweeps checks passes remaining done counts progress = (.ok totals, final)) :
    ∃ placed, RunRecord (passes.map Pass.id) done remaining counts totals progress.journal
      final.journal placed := by
  induction remaining generalizing done counts progress with
  | zero =>
    obtain ⟨same, rfl⟩ := Prod.mk.inj ran
    obtain rfl := Except.ok.inj same
    exact ⟨[], .nil⟩
  | succ remaining inductionHypothesis =>
    rw [runSweeps] at ran
    obtain ⟨made, middle, running, others⟩ := bind_succeeds_iff.mp ran
    obtain ⟨placed, sweep⟩ := runSweep_record discreet running
    split at others
    · rename_i none
      obtain ⟨same, rfl⟩ := Prod.mk.inj others
      obtain rfl := Except.ok.inj same
      exact ⟨[], sweep.last known (all_zero_iff.mp none)⟩
    · rename_i some
      rw [all_zero_iff] at some
      obtain ⟨rest, record⟩ := inductionHypothesis (sweep.keys_add known ▸ known) others
      exact ⟨placed ++ rest, sweep.followed known some record⟩

end Sweeps

/-- A run that succeeds reports what its sweeps add up to. Pruning at the end takes
nodes and records nothing. -/
theorem runFrom_record [Arithmetic α] {pipeline : Pipeline α} {progress after : Progress α}
    {stats : RunStats} (provided : ∀ planned ∈ pipeline.passes, planned.pass.Provided)
    (sound : progress.graph.Sound) (ran : pipeline.runFrom progress = (.ok stats, after)) :
    ∃ passes totals placed, pipeline.scheduled = .ok passes ∧
      RunRecord (passes.map Pass.id) 0 pipeline.maxSweeps
        (passes.foldl (fun counts pass => addCount pass.id 0 counts) []) totals progress.journal
        after.journal placed ∧
      stats.passesApplied = totals.counts ∧ stats.didNotConverge = !totals.converged ∧
      stats.totalSweeps = totals.sweeps ∧
      stats.nodesRemoved = progress.graph.live - after.graph.live := by
  cases ordered : pipeline.scheduled with
  | error failure =>
    rw [runFrom, lift_bind_of_error ordered] at ran
    cases (Prod.mk.inj ran).1
  | ok passes =>
    have providedPasses (pass : Pass α) (member : pass ∈ passes) : pass.Provided := by
      obtain ⟨planned, listed, rfl⟩ := mem_of_scheduled ordered member
      exact provided planned listed
    have known : ∀ id ∈ passes.map Pass.id, id ∈
        (passes.foldl (fun counts pass => addCount pass.id 0 counts) []).map Prod.fst := by
      intro id member
      rw [keys_start]
      exact List.mem_eraseDups.mpr member
    have sweeping := ran
    rw [runFrom, lift_bind_of_ok ordered, read_bind] at sweeping
    obtain ⟨totals, swept, going, -⟩ := bind_succeeds_iff.mp sweeping
    have soundSwept : swept.graph.Sound := by
      have kept := keeps_runSweeps (fun pass member => (providedPasses pass member).keeps_sound)
        pipeline.checks pipeline.maxSweeps 0
        (passes.foldl (fun counts pass => addCount pass.id 0 counts) []) progress sound
      rwa [going] at kept
    obtain ⟨placed, record⟩ := runSweeps_record
      (fun pass member => (providedPasses pass member).discreet) known going
    obtain ⟨same, rfl⟩ := Prod.mk.inj ((runFrom_eq ordered going soundSwept).symm.trans ran)
    obtain rfl := Except.ok.inj same
    exact ⟨passes, totals, placed, rfl, record, rfl, rfl, rfl, rfl⟩

end Pipeline

end RangeFold
