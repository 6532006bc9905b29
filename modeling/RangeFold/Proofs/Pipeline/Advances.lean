import RangeFold.Proofs.Graph.Checks
import RangeFold.Proofs.Graph.Clearing
import RangeFold.Proofs.Pass.Verdicts
import RangeFold.Proofs.Pipeline.Runs

/-!
# How a run advances

A run over reliable passes goes through on a sound graph, with or without checks in between, or
it breaks off at a node where a pass fails for good. A pass does that only where a value is larger
than arrays can be, and no value becomes larger on the way, so such a value was there from the
start.

A run that goes through pays for each change it counts with a node of the graph. Where it counts
none, the graph is the same and there was no node at which a pass would have acted: a pass visits
all live nodes unless it is not applicable, and what it answers at a node depends on the graph
alone.

So a sweep without changes has seen all there is to see, and a run has less than as many sweeps
with changes as there are nodes at the start.
-/

namespace RangeFold

open Attempt

variable {α : Type}

/-- The pass acts at no node. -/
def Pass.Idle (pass : Pass α) (graph : Graph α) : Prop := ∀ id, ¬ pass.Acts graph id

namespace Journal

/-- A reported decline marks no node as visited. -/
@[simp] theorem isVisited_addDiagnostic (journal : Journal) (pass node message : String)
    (id : NodeId) :
    (journal.addDiagnostic pass node message).isVisited id = journal.isVisited id := by
  unfold addDiagnostic
  split <;> rfl

/-- A recorded change marks no node as visited. -/
@[simp] theorem isVisited_recordChange (journal : Journal) (node : String) (id : NodeId) :
    (journal.recordChange node).isVisited id = journal.isVisited id := by
  unfold recordChange
  split <;> rfl

/-- Marking a node marks that one, and the earlier marks stay. -/
theorem isVisited_markVisited {journal : Journal} {id other : NodeId} :
    (journal.markVisited id).isVisited other = true ↔
      other = id ∨ journal.isVisited other = true := by
  unfold markVisited
  split
  · rename_i known
    constructor
    · exact .inr
    · rintro (rfl | visited)
      · exact known
      · exact visited
  · simp [isVisited]

/-- A pass begins with no node visited, whatever the one before it had marked. -/
@[simp] theorem isVisited_beginPass (journal : Journal) (pass : String) (sweep : Nat)
    (id : NodeId) : (journal.beginPass pass sweep).isVisited id = false := rfl

end Journal

namespace Pipeline

/-- The number of changes in counts by name. -/
def tally (counts : List (String × Nat)) : Nat := (counts.map Prod.snd).sum

section Tally

variable {counts made : List (String × Nat)}

/-- Counting a pass up raises the tally by as much, whether or not the pass had an
entry. -/
theorem tally_addCount (id : String) (count : Nat) :
    tally (addCount id count counts) = tally counts + count := by
  induction counts with
  | nil => simp [addCount, tally]
  | cons entry rest inductionHypothesis =>
    simp only [tally] at inductionHypothesis
    unfold addCount
    split
    · simp only [tally, List.map_cons, List.sum_cons]
      omega
    · simp only [tally, List.map_cons, List.sum_cons, inductionHypothesis]
      omega

/-- Adding the counts of a sweep raises the tally by theirs. -/
theorem tally_add (made : List (String × Nat)) :
    tally (made.foldl (fun counts (id, count) => addCount id count counts) counts) =
      tally counts + tally made := by
  induction made generalizing counts with
  | nil => rfl
  | cons entry rest inductionHypothesis =>
    rw [List.foldl_cons, inductionHypothesis, tally_addCount]
    simp only [tally, List.map_cons, List.sum_cons]
    omega

/-- Entering passes with zero changes leaves the tally. -/
theorem tally_zeros (passes : List (Pass α)) :
    tally (passes.foldl (fun counts pass => addCount pass.id 0 counts) counts) = tally counts := by
  induction passes generalizing counts with
  | nil => rfl
  | cons pass rest inductionHypothesis =>
    rw [List.foldl_cons, inductionHypothesis, tally_addCount, Nat.add_zero]

/-- A sweep in which every count is zero made no change at all. -/
theorem all_zero_iff : (made.all fun (_, count) => count == 0) = true ↔ tally made = 0 := by
  simp only [tally, List.all_eq_true, beq_iff_eq, List.sum_eq_zero_iff, List.forall_mem_map]

/-- The changes of a run are the tally of its counts. -/
theorem totalChanges_eq (stats : RunStats) : stats.totalChanges = tally stats.passesApplied := by
  unfold RunStats.totalChanges tally
  induction stats.passesApplied with
  | nil => rfl
  | cons entry rest inductionHypothesis =>
    rw [List.foldr_cons, List.map_cons, List.sum_cons, inductionHypothesis]

end Tally

end Pipeline

variable [Arithmetic α]

/-- A stretch of a run in which a number of changes were made, each of which has taken a node
with it and has left no types that were not there. Without changes the graph is the same. -/
structure Advance (before after : Graph α) (made : Nat) : Prop where
  sound : after.Sound
  paid : after.live + made ≤ before.live
  idle : made = 0 → after = before
  inherits : after.Inherits before

namespace Advance

variable {before middle after : Graph α} {made more : Nat}

/-- Standing still is an advance without changes. -/
theorem refl (sound : before.Sound) : Advance before before 0 :=
  ⟨sound, le_rfl, fun _ => rfl, .refl before⟩

/-- Two stretches in turn make one, with the changes of both. The nodes lost add up
along with the changes. -/
theorem trans (first : Advance before middle made) (second : Advance middle after more) :
    Advance before after (made + more) where
  sound := second.sound
  paid := by
    have := first.paid
    have := second.paid
    omega
  idle none := by
    obtain ⟨noneFirst, noneSecond⟩ := Nat.add_eq_zero_iff.mp none
    exact (second.idle noneSecond).trans (first.idle noneFirst)
  inherits := second.inherits.trans first.inherits

/-- A value that is larger than arrays can be was there before. A run cannot run
into a size that its graph did not start with. -/
theorem large (advance : Advance before after made) (large : ¬ after.Storable) :
    ¬ before.Storable := fun stored => large (stored.of_inherits advance.inherits)

end Advance

/-- Visits of a pass to some nodes. They make no changes just if the pass acts at none of the nodes
that had not been visited, and then they add no other nodes to those. -/
structure Visits (pass : Pass α) (ids : List NodeId) (before after : Progress α) (made : Nat) :
    Prop where
  advance : Advance before.graph after.graph made
  changeless : made = 0 ↔
    ∀ id ∈ ids, before.journal.isVisited id = false → ¬ pass.Acts before.graph id
  remembers : made = 0 → ∀ id, before.journal.isVisited id = true →
    after.journal.isVisited id = true
  visited : made = 0 → ∀ id, after.journal.isVisited id = true →
    before.journal.isVisited id = true ∨ id ∈ ids

/-- What it takes for visits of a pass to some nodes to break off: the pass acts at one of them that
had not been visited, and some value is larger than arrays can be. -/
structure Blocked (pass : Pass α) (ids : List NodeId) (before : Progress α) : Prop where
  acts : ∃ id ∈ ids, before.journal.isVisited id = false ∧ pass.Acts before.graph id
  large : ¬ before.graph.Storable

namespace Visits

variable {pass : Pass α} {id : NodeId} {rest : List NodeId} {before middle after : Progress α}
  {made more : Nat}

/-- Visiting no node changes nothing and remembers what was visited. -/
theorem nil (sound : before.graph.Sound) : Visits pass [] before before 0 where
  advance := .refl sound
  changeless := by simp
  remembers _ _ known := known
  visited _ _ known := .inl known

/-- The first visit and the others are visits of all. If none of them made a change,
the graph the others ran in is the first one's, which is what joins the two
conditions. -/
theorem cons (first : Visits pass [id] before middle made)
    (others : Visits pass rest middle after more) :
    Visits pass (id :: rest) before after (made + more) where
  advance := first.advance.trans others.advance
  changeless := by
    rw [Nat.add_eq_zero_iff]
    constructor
    · rintro ⟨none, noneOthers⟩ other member new
      have same := first.advance.idle none
      rcases List.mem_cons.mp member with rfl | member
      · exact first.changeless.mp none other List.mem_cons_self new
      cases later : middle.journal.isVisited other with
      | false => exact same ▸ others.changeless.mp noneOthers other member later
      | true =>
        rcases first.visited none other later with old | own
        · simp [old] at new
        · exact first.changeless.mp none other own new
    · intro changeless
      have none := first.changeless.mpr fun other own =>
        changeless other (List.mem_cons.mpr (.inl (List.mem_singleton.mp own)))
      refine ⟨none, others.changeless.mpr fun other member later => ?_⟩
      rw [first.advance.idle none]
      refine changeless other (List.mem_cons_of_mem id member) (Bool.eq_false_iff.mpr fun old => ?_)
      simp [first.remembers none other old] at later
  remembers none other known := by
    obtain ⟨noneFirst, noneOthers⟩ := Nat.add_eq_zero_iff.mp none
    exact others.remembers noneOthers other (first.remembers noneFirst other known)
  visited none other known := by
    obtain ⟨noneFirst, noneOthers⟩ := Nat.add_eq_zero_iff.mp none
    rcases others.visited noneOthers other known with earlier | member
    · exact (first.visited noneFirst other earlier).imp_right fun own =>
        List.mem_cons.mpr (.inl (List.mem_singleton.mp own))
    · exact .inr (List.mem_cons_of_mem id member)

/-- Visits that break off after a first one were blocked at the start. If the first one has changed
nothing, the node at which the pass acts then is still to be visited; otherwise the pass acts at the
first node. -/
theorem blocked_cons (first : Visits pass [id] before middle made)
    (others : Blocked pass rest middle) : Blocked pass (id :: rest) before where
  acts := by
    obtain ⟨other, member, later, acts⟩ := others.acts
    by_cases none : made = 0
    · refine ⟨other, List.mem_cons_of_mem id member, Bool.eq_false_iff.mpr fun old => ?_,
        first.advance.idle none ▸ acts⟩
      simp [first.remembers none other old] at later
    · have acted := mt first.changeless.mpr none
      push Not at acted
      obtain ⟨own, member, new, acts⟩ := acted
      obtain rfl := List.mem_singleton.mp member
      exact ⟨own, List.mem_cons_self, new, acts⟩
  large := first.advance.large others.large

end Visits

namespace Pipeline

variable {progress : Progress α}

/-- A sound graph passes the check after a change. Runs that check therefore come
out as those that do not. -/
theorem checkAfter_eq (sound : progress.graph.Sound) (pass node : String) :
    checkAfter pass node progress = (.ok (), progress) := by
  rw [checkAfter, Progress.currentGraph_bind, sound.check_eq_ok]
  rfl

section Pass

variable {pass : Pass α}

/-- What is recorded of a change at a node. The change is counted once and recorded
under the name that the node had before it. -/
theorem applyAt_of_changed (checks : Bool) {id : NodeId} {after : Progress α}
    (applied : pass.apply id progress = (.ok true, after)) (sound : after.graph.Sound) :
    applyAt checks pass id progress = (.ok 1, ⟨after.graph,
      after.journal.recordChange (progress.graph.displayName id)⟩) := by
  rw [applyAt, Progress.currentGraph_bind, bind_of_ok (orElse_of_ok applied), if_pos rfl]
  cases checks with
  | false => rfl
  | true =>
    rw [if_pos rfl, bind_of_ok (checkAfter_eq sound _ _)]
    rfl

/-- A pass that answers that it changed nothing is counted with zero changes, and no
check of the graph is made. -/
theorem applyAt_of_declined (checks : Bool) {id : NodeId} {after : Progress α}
    (applied : pass.apply id progress = (.ok false, after)) :
    applyAt checks pass id progress = (.ok 0, after) := by
  rw [applyAt, Progress.currentGraph_bind, bind_of_ok (orElse_of_ok applied),
    if_neg Bool.false_ne_true]
  rfl

/-- A recoverable failure is only reported. It is counted with no change, and the
run goes on. -/
theorem applyAt_of_reported (checks : Bool) {id : NodeId} {failure : Failure}
    {after : Progress α} (applied : pass.apply id progress = (.error failure, after))
    (recoverable : failure.isRecoverable = true) :
    applyAt checks pass id progress = (.ok 0, ⟨after.graph,
      after.journal.addDiagnostic pass.id (progress.graph.displayName id) failure.message⟩) := by
  have reported : (pass.apply id).orElse (declined pass.id (progress.graph.displayName id))
      progress = (.ok false, ⟨after.graph, after.journal.addDiagnostic pass.id
        (progress.graph.displayName id) failure.message⟩) := by
    rw [orElse_of_error applied, declined, if_pos recoverable]
    rfl
  rw [applyAt, Progress.currentGraph_bind, bind_of_ok reported, if_neg Bool.false_ne_true]
  rfl

/-- Any other failure ends the run, on the account of the pass and the node. The
graph stays as the pass has left it. -/
theorem applyAt_of_failed (checks : Bool) {id : NodeId} {failure : Failure}
    {after : Progress α} (applied : pass.apply id progress = (.error failure, after))
    (grave : failure.isRecoverable = false) :
    applyAt checks pass id progress =
      (.error (.passFailed pass.id (progress.graph.displayName id) failure), after) := by
  have failed : (pass.apply id).orElse (declined pass.id (progress.graph.displayName id))
      progress = (.error (.passFailed pass.id (progress.graph.displayName id) failure), after) := by
    rw [orElse_of_error applied, declined, grave, if_neg Bool.false_ne_true]
    rfl
  rw [applyAt, Progress.currentGraph_bind, bind_of_error failed]

/-- At a node that a reliable pass admits it makes a change just if it acts, or it
breaks off. Breaking off takes a value that is too large for an array. -/
theorem applyAt_settles (reliable : pass.Reliable) (checks : Bool) {id : NodeId}
    (sound : progress.graph.Sound) (admitted : pass.admits progress.graph id = true) :
    Settles (applyAt checks pass id) progress
      (fun made after => Advance progress.graph after.graph made ∧
        (made = 0 ↔ ¬ pass.Acts progress.graph id) ∧
        (made = 0 → ∀ other, after.journal.isVisited other = progress.journal.isVisited other))
      (pass.Acts progress.graph id ∧ ¬ progress.graph.Storable) := by
  have acts := reliable.acts_iff progress id
  rcases reliable.verdict progress id sound admitted with
    @⟨after, applied, soundAfter, fewer, inherits⟩ | applied | @⟨failure, applied, recoverable⟩ |
      @⟨failure, applied, grave, large⟩
  · have acting : pass.Acts progress.graph id := acts.mpr ⟨admitted, .inl (by rw [applied])⟩
    exact .succeeds (applyAt_of_changed checks applied soundAfter)
      ⟨⟨soundAfter, fewer, fun none => absurd none one_ne_zero, inherits⟩,
        iff_of_false one_ne_zero (not_not_intro acting), fun none => absurd none one_ne_zero⟩
  · have idle : ¬ pass.Acts progress.graph id := by simp [acts, applied, Pass.Acting]
    exact .succeeds (applyAt_of_declined checks applied)
      ⟨.refl sound, iff_of_true rfl idle, fun _ _ => rfl⟩
  · have idle : ¬ pass.Acts progress.graph id := by simp [acts, applied, recoverable, Pass.Acting]
    exact .succeeds (applyAt_of_reported checks applied recoverable)
      ⟨.refl sound, iff_of_true rfl idle, fun _ other => by simp⟩
  · exact .breaks (applyAt_of_failed checks applied grave)
      ⟨acts.mpr ⟨admitted, .inr ⟨failure, by rw [applied], grave⟩⟩, large⟩

/-- A visit of a single node. A node that has gone, was visited or is not admitted
is passed over. -/
theorem visit_settles (reliable : pass.Reliable) (checks : Bool) (id : NodeId)
    (sound : progress.graph.Sound) :
    Settles (visit checks pass id) progress (fun made after => Visits pass [id] progress after made)
      (Blocked pass [id] progress) := by
  by_cases skipped :
      (!progress.graph.contains id || progress.journal.isVisited id) = true
  · have stays : visit checks pass id progress = (.ok 0, progress) := by
      rw [visit, read_bind, if_pos skipped]
      rfl
    refine .succeeds stays ⟨.refl sound, iff_of_true rfl ?_, fun _ _ known => known,
      fun _ _ known => .inl known⟩
    intro other own new acts
    obtain ⟨admitted, -⟩ := (reliable.acts_iff progress other).mp acts
    obtain rfl := List.mem_singleton.mp own
    obtain ⟨node, found⟩ := reliable.live _ _ admitted
    simp [Graph.contains, found, new] at skipped
  · have new : progress.journal.isVisited id = false := by
      rw [Bool.or_eq_true, not_or] at skipped
      exact Bool.eq_false_iff.mpr skipped.2
    -- The node is marked before the pass is asked, so the mark is there however it answers.
    let marked : Progress α := ⟨progress.graph, progress.journal.markVisited id⟩
    have remembers (other : NodeId) (known : progress.journal.isVisited other = true) :
        marked.journal.isVisited other = true := Journal.isVisited_markVisited.mpr (.inr known)
    have visited (other : NodeId) (known : marked.journal.isVisited other = true) :
        progress.journal.isVisited other = true ∨ other ∈ [id] :=
      (Journal.isVisited_markVisited.mp known).symm.imp_right List.mem_singleton.mpr
    have start : visit checks pass id progress = (if pass.admits progress.graph id then
        applyAt checks pass id else pure 0 : Attempt (Progress α) Nat) marked := by
      rw [visit, read_bind, if_neg skipped]
      rfl
    by_cases admitted : pass.admits progress.graph id = true
    · rw [if_pos admitted] at start
      have soundMarked : marked.graph.Sound := sound
      cases applyAt_settles reliable checks soundMarked admitted with
      | breaks ran why =>
        exact .breaks (start.trans ran) ⟨⟨id, List.mem_cons_self, new, why.1⟩, why.2⟩
      | succeeds ran holds =>
        obtain ⟨advance, changeless, kept⟩ := holds
        refine .succeeds (start.trans ran) ⟨advance, ?_, fun none other known => ?_,
          fun none other known => ?_⟩
        · rw [changeless]
          exact ⟨fun idle other own _ => List.mem_singleton.mp own ▸ idle,
            fun idle => idle id List.mem_cons_self new⟩
        · rw [kept none]
          exact remembers other known
        · rw [kept none] at known
          exact visited other known
    · rw [if_neg admitted] at start
      refine .succeeds start ⟨.refl sound, iff_of_true rfl ?_, fun _ => remembers,
        fun _ => visited⟩
      intro other own _ acts
      obtain ⟨admits, -⟩ := (reliable.acts_iff progress other).mp acts
      exact admitted (List.mem_singleton.mp own ▸ admits)

/-- Visits in turn, by induction on the nodes: each one starts where the one before has left off. -/
theorem visitEach_settles (reliable : pass.Reliable) (checks : Bool) (ids : List NodeId)
    (sound : progress.graph.Sound) :
    Settles (visitEach checks pass ids) progress
      (fun made after => Visits pass ids progress after made) (Blocked pass ids progress) := by
  induction ids generalizing progress with
  | nil => exact .succeeds rfl (.nil sound)
  | cons id rest inductionHypothesis =>
    refine (visit_settles reliable checks id sound).bind (fun blocked => ?_) fun made middle first =>
      (inductionHypothesis first.advance.sound).bind first.blocked_cons fun more after others =>
        .succeeds rfl (first.cons others)
    obtain ⟨⟨other, own, acts⟩, large⟩ := blocked
    exact ⟨⟨other, List.mem_cons.mpr (.inl (List.mem_singleton.mp own)), acts⟩, large⟩

/-- One pass of a sweep makes no change just if it acts at no node. The visits go
through the order that the graph had at the beginning, so a node that comes later is
not visited. -/
theorem runPass_settles (reliable : pass.Reliable) (checks : Bool) (sweep : Nat)
    (sound : progress.graph.Sound) :
    Settles (runPass checks sweep pass) progress
      (fun made after => Advance progress.graph after.graph made ∧
        (made = 0 ↔ pass.Idle progress.graph))
      (¬ pass.Idle progress.graph ∧ ¬ progress.graph.Storable) := by
  by_cases applicable : pass.isApplicable progress.graph = true
  · let begun : Progress α := ⟨progress.graph, progress.journal.beginPass pass.id sweep⟩
    have start : runPass checks sweep pass progress =
        visitEach checks pass progress.graph.reverseOrder begun := by
      rw [runPass, Progress.currentGraph_bind, if_pos applicable]
      rfl
    have soundBegun : begun.graph.Sound := sound
    cases visitEach_settles reliable checks progress.graph.reverseOrder soundBegun with
    | breaks ran why =>
      obtain ⟨⟨id, -, -, acts⟩, large⟩ := why
      exact .breaks (start.trans ran) ⟨fun idle => idle id acts, large⟩
    | succeeds ran visits =>
      refine .succeeds (start.trans ran) ⟨visits.advance, ?_⟩
      rw [visits.changeless]
      refine ⟨fun idle id acts => ?_, fun idle id _ _ => idle id⟩
      obtain ⟨admitted, -⟩ := (reliable.acts_iff progress id).mp acts
      have listed : id ∈ progress.graph.reverseOrder := List.mem_reverse.mpr
        ((sound.linked.mem_order_iff sound.fresh.single sound.acyclic).mpr
          (reliable.live _ _ admitted))
      exact idle id listed (Journal.isVisited_beginPass ..) acts
  · have stays : runPass checks sweep pass progress = (.ok 0, progress) := by
      rw [runPass, Progress.currentGraph_bind, if_neg applicable]
      rfl
    refine .succeeds stays ⟨.refl sound, iff_of_true rfl fun id acts => ?_⟩
    exact applicable (reliable.applicable _ id ((reliable.acts_iff progress id).mp acts).1)

end Pass

section Passes

variable {passes : List (Pass α)}

/-- One sweep makes no change just if no pass acts at any node. By induction on the passes: while
the graph is the one that the sweep began with, a pass that acts in it is one that acted at the
beginning. -/
theorem runSweep_settles (reliable : ∀ pass ∈ passes, pass.Reliable) (checks : Bool)
    (sweep : Nat) (sound : progress.graph.Sound) :
    Settles (runSweep checks sweep passes) progress
      (fun made after => Advance progress.graph after.graph (tally made) ∧
        (tally made = 0 ↔ ∀ pass ∈ passes, pass.Idle progress.graph))
      ((¬ ∀ pass ∈ passes, pass.Idle progress.graph) ∧ ¬ progress.graph.Storable) := by
  induction passes generalizing progress with
  | nil => exact .succeeds rfl ⟨.refl sound, iff_of_true rfl (by simp)⟩
  | cons pass rest inductionHypothesis =>
    obtain ⟨reliablePass, reliableRest⟩ := List.forall_mem_cons.mp reliable
    refine (runPass_settles reliablePass checks sweep sound).bind ?_ fun made middle passed => ?_
    · rintro ⟨acts, large⟩
      exact ⟨fun idle => acts (idle pass List.mem_cons_self), large⟩
    · obtain ⟨first, changeless⟩ := passed
      refine (inductionHypothesis reliableRest first.sound).bind ?_ fun more after others => ?_
      · rintro ⟨acts, large⟩
        refine ⟨fun idle => ?_, first.large large⟩
        obtain ⟨idlePass, idleRest⟩ := List.forall_mem_cons.mp idle
        rw [first.idle (changeless.mpr idlePass)] at acts
        exact acts idleRest
      · obtain ⟨rest, changelessRest⟩ := others
        refine .succeeds rfl ⟨first.trans rest, ?_⟩
        show made + tally more = 0 ↔ _
        rw [Nat.add_eq_zero_iff, List.forall_mem_cons, ← changeless]
        refine and_congr_right fun none => ?_
        rw [changelessRest, first.idle none]

/-- Sweeps end at a graph in which no pass acts, unless the limit ends them before, for which it
cannot exceed the number of nodes. If none acts to begin with, they end after the first sweep with
the same graph, and they cannot break off. -/
theorem runSweeps_settles (reliable : ∀ pass ∈ passes, pass.Reliable) (checks : Bool)
    (remaining done : Nat) (counts : List (String × Nat)) (sound : progress.graph.Sound) :
    Settles (runSweeps checks passes remaining done counts) progress
      (fun totals after => ∃ made, Advance progress.graph after.graph made ∧
        tally totals.counts = tally counts + made ∧
        (totals.converged = true → 0 < remaining ∧ ∀ pass ∈ passes, pass.Idle after.graph) ∧
        (progress.graph.live < remaining → totals.converged = true) ∧
        ((∀ pass ∈ passes, pass.Idle progress.graph) → made = 0 ∧
          (0 < remaining → totals.sweeps = done + 1 ∧ totals.converged = true)))
      ((¬ ∀ pass ∈ passes, pass.Idle progress.graph) ∧ ¬ progress.graph.Storable) := by
  induction remaining generalizing done counts progress with
  | zero =>
    exact .succeeds rfl ⟨0, .refl sound, rfl, fun converged => absurd converged Bool.false_ne_true,
      fun less => absurd less (Nat.not_lt_zero _),
      fun _ => ⟨rfl, fun positive => absurd positive (Nat.lt_irrefl 0)⟩⟩
  | succ remaining inductionHypothesis =>
    refine (runSweep_settles reliable checks (done + 1) sound).bind id fun made middle swept => ?_
    obtain ⟨first, changeless⟩ := swept
    by_cases none : tally made = 0
    · have ended : (made.all fun (_, count) => count == 0) = true := all_zero_iff.mpr none
      rw [if_pos ended]
      refine .succeeds rfl ⟨tally made, first, tally_add made, fun _ => ⟨Nat.succ_pos _, ?_⟩,
        fun _ => rfl, fun _ => ⟨none, fun _ => ⟨rfl, rfl⟩⟩⟩
      rw [first.idle none]
      exact changeless.mp none
    · have acts : ¬ ∀ pass ∈ passes, pass.Idle progress.graph := mt changeless.mpr none
      have goesOn : ¬ (made.all fun (_, count) => count == 0) = true := mt all_zero_iff.mp none
      rw [if_neg goesOn]
      cases inductionHypothesis (done + 1)
          (made.foldl (fun counts (id, count) => addCount id count counts) counts) first.sound with
      | breaks ran why => exact .breaks ran ⟨acts, first.large why.2⟩
      | succeeds ran holds =>
        obtain ⟨more, rest, counted, settled, limited, -⟩ := holds
        refine .succeeds ran ⟨tally made + more, first.trans rest, ?_,
          fun converged => ⟨Nat.succ_pos _, (settled converged).2⟩, fun enough => limited ?_,
          fun idle => absurd idle acts⟩
        · rw [counted, tally_add, Nat.add_assoc]
        · have := first.paid
          omega

end Passes

/-- The graph that a run leaves if its sweeps leave a graph. -/
def finish (pipeline : Pipeline α) (graph : Graph α) : Graph α :=
  if pipeline.prunes then graph.pruned else graph

/-- The pruning after the last sweep adds no node. -/
theorem live_finish_le (pipeline : Pipeline α) {graph : Graph α} (sound : graph.Sound) :
    (pipeline.finish graph).live ≤ graph.live := by
  unfold finish
  split
  · obtain ⟨-, -, counted⟩ := sound.prune_eq
    omega
  · exact le_rfl

section Runs

variable {pipeline : Pipeline α} {passes : List (Pass α)}

/-- A run sweeps and then prunes, if it is to. Its statistics are read off the graph
before and after. -/
theorem runFrom_eq (scheduled : pipeline.scheduled = .ok passes) {totals : SweepTotals}
    {swept : Progress α} (going : runSweeps pipeline.checks passes pipeline.maxSweeps 0
      (passes.foldl (fun counts pass => addCount pass.id 0 counts) []) progress =
        (.ok totals, swept))
    (sound : swept.graph.Sound) :
    pipeline.runFrom progress =
      (.ok ⟨totals.counts, !totals.converged, totals.sweeps,
          progress.graph.live - (pipeline.finish swept.graph).live,
          swept.journal.diagnostics.drop progress.journal.diagnostics.length⟩,
        ⟨pipeline.finish swept.graph, swept.journal⟩) := by
  rw [runFrom, lift_bind_of_ok scheduled, read_bind, bind_of_ok going, finish]
  split
  · have pruning : Progress.onGraph Graph.prune swept =
        (.ok swept.graph.unneeded.length, ⟨swept.graph.pruned, swept.journal⟩) := by
      rw [Progress.onGraph_apply, sound.prune_eq.1]
    rw [bind_of_ok pruning]
    rfl
  · rfl

/-- Sweeps that break off end the run where they do, and it does not prune. The
failure is passed on as it is. -/
theorem runFrom_of_broken (scheduled : pipeline.scheduled = .ok passes) {failure : Failure}
    {after : Progress α} (going : runSweeps pipeline.checks passes pipeline.maxSweeps 0
      (passes.foldl (fun counts pass => addCount pass.id 0 counts) []) progress =
        (.error failure, after)) :
    pipeline.runFrom progress = (.error failure, after) := by
  rw [runFrom, lift_bind_of_ok scheduled, read_bind, bind_of_error going]

/-- The graph that the sweeps of a run leave, before it prunes. -/
def swept (pipeline : Pipeline α) (progress : Progress α) : Graph α :=
  ((pipeline.withPruning false).runFrom progress).2.graph

/-- What a run that goes through comes to. Its changes are paid for before it prunes. If it converges,
no pass acts in the graph that its sweeps have left, and with more sweeps than nodes it does converge.
If no pass acts to begin with, it takes one sweep and makes no change. -/
structure GoesThrough (pipeline : Pipeline α) (start : Progress α) (stats : RunStats)
    (after : Progress α) : Prop where
  left : after.graph = pipeline.finish (pipeline.swept start)
  advance : Advance start.graph (pipeline.swept start) stats.totalChanges
  removed : stats.nodesRemoved = start.graph.live - after.graph.live
  settled : stats.didNotConverge = false → 0 < pipeline.maxSweeps ∧
    ∀ planned ∈ pipeline.passes, planned.pass.Idle (pipeline.swept start)
  limited : start.graph.live < pipeline.maxSweeps → stats.didNotConverge = false
  resting : (∀ planned ∈ pipeline.passes, planned.pass.Idle start.graph) →
    stats.totalChanges = 0 ∧ (0 < pipeline.maxSweeps →
      stats.totalSweeps = 1 ∧ stats.didNotConverge = false)

variable (progress : Progress α)
  (reliable : ∀ planned ∈ pipeline.passes, planned.pass.Reliable)
  (scheduled : ∃ passes, pipeline.scheduled = .ok passes ∧
    ∀ planned ∈ pipeline.passes, planned.pass ∈ passes)
  (sound : progress.graph.Sound)

include reliable scheduled sound

/-- A run over reliable passes goes through, unless a pass acts in the graph that it starts from and a
value there is larger than arrays can be. -/
theorem runFrom_settles :
    Settles pipeline.runFrom progress (pipeline.GoesThrough progress)
      ((¬ ∀ planned ∈ pipeline.passes, planned.pass.Idle progress.graph) ∧
        ¬ progress.graph.Storable) := by
  obtain ⟨passes, ordered, taking⟩ := scheduled
  have reliablePasses (pass : Pass α) (member : pass ∈ passes) : pass.Reliable := by
    obtain ⟨planned, listed, rfl⟩ := mem_of_scheduled ordered member
    exact reliable planned listed
  -- Scheduling only rearranges the passes, so it is all the same which list is idle.
  have idle_iff (graph : Graph α) : (∀ pass ∈ passes, pass.Idle graph) ↔
      ∀ planned ∈ pipeline.passes, planned.pass.Idle graph := by
    constructor
    · intro idle planned listed
      exact idle planned.pass (taking planned listed)
    · intro idle pass member
      obtain ⟨planned, listed, rfl⟩ := mem_of_scheduled ordered member
      exact idle planned listed
  cases runSweeps_settles reliablePasses pipeline.checks pipeline.maxSweeps 0
      (passes.foldl (fun counts pass => addCount pass.id 0 counts) []) sound with
  | breaks ran why =>
    rw [idle_iff] at why
    exact .breaks (runFrom_of_broken ordered ran) why
  | @succeeds totals swept going holds =>
    obtain ⟨made, advance, counted, settled, limited, resting⟩ := holds
    have orderedToo : (pipeline.withPruning false).scheduled = .ok passes := ordered
    have left : pipeline.swept progress = swept.graph := by
      rw [Pipeline.swept, runFrom_eq orderedToo going advance.sound]
      rfl
    have changes : tally totals.counts = made := by
      rw [counted, tally_zeros]
      exact Nat.zero_add made
    refine .succeeds (runFrom_eq ordered going advance.sound) ⟨by rw [left], ?_, rfl,
      fun converged => ?_, fun enough => ?_, fun idle => ?_⟩
    · rw [totalChanges_eq, changes, left]
      exact advance
    · obtain ⟨limit, idle⟩ := settled (by simpa using converged)
      exact ⟨limit, left ▸ (idle_iff _).mp idle⟩
    · simpa using limited enough
    · obtain ⟨none, ends⟩ := resting ((idle_iff _).mpr idle)
      refine ⟨by rw [totalChanges_eq, changes, none], fun limit => ?_⟩
      obtain ⟨sweeps, converged⟩ := ends limit
      exact ⟨sweeps, by simpa using converged⟩

end Runs

end Pipeline

end RangeFold
