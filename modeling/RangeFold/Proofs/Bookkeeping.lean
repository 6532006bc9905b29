import RangeFold.Pipeline.Settings
import RangeFold.Proofs.Convergence
import RangeFold.Proofs.Pipeline.Log

/-!
# What a run reports

The numbers that a run returns are those of its record. Each pass is counted as often as the record
names it, the record goes through the sweeps and through the schedule within each of them, every
sweep before the last one has changes, and the last one has some exactly if the limit ended the
run.
-/

namespace RangeFold

open Attempt Pipeline

variable {α : Type} [Arithmetic α]

/-- A pipeline that is put together from provided passes and settings. -/
inductive Pipeline.Built : Pipeline α → Prop where
  | empty : Built Pipeline.empty
  | withPassAt {pipeline : Pipeline α} {pass : Pass α} (built : Built pipeline)
      (provided : pass.Provided) (priority : Int) : Built (pipeline.withPassAt pass priority)
  | withMaxSweeps {pipeline : Pipeline α} (built : Built pipeline) (limit : Nat) :
      Built (pipeline.withMaxSweeps limit)
  | withPruning {pipeline : Pipeline α} (built : Built pipeline) (prunes : Bool) :
      Built (pipeline.withPruning prunes)
  | withChecks {pipeline : Pipeline α} (built : Built pipeline) (checks : Bool) :
      Built (pipeline.withChecks checks)

namespace Pipeline.Built

variable {pipeline : Pipeline α}

/-- A pipeline that was built allows at least one sweep. -/
theorem limited (built : pipeline.Built) : 0 < pipeline.maxSweeps := by
  induction built with
  | empty => exact Nat.succ_pos 9
  | withPassAt _ _ _ inductionHypothesis => exact inductionHypothesis
  | withMaxSweeps _ limit _ => exact Nat.lt_of_lt_of_le Nat.one_pos (Nat.le_max_right limit 1)
  | withPruning _ _ inductionHypothesis => exact inductionHypothesis
  | withChecks _ _ inductionHypothesis => exact inductionHypothesis

/-- A pipeline that was built has provided passes only, builtin or scripted. -/
theorem provided (built : pipeline.Built) :
    ∀ planned ∈ pipeline.passes, planned.pass.Provided := by
  induction built with
  | empty => exact fun _ member => absurd member List.not_mem_nil
  | withPassAt _ provided _ inductionHypothesis =>
    exact List.forall_mem_append.mpr
      ⟨inductionHypothesis, fun planned last => List.mem_singleton.mp last ▸ provided⟩
  | withMaxSweeps _ _ inductionHypothesis => exact inductionHypothesis
  | withPruning _ _ inductionHypothesis => exact inductionHypothesis
  | withChecks _ _ inductionHypothesis => exact inductionHypothesis

section Settings

variable {registry : Registry α} (provides : ∀ id parameters pass,
  registry.create id parameters = .ok pass → pass.Provided)

include provides

/-- Adding the passes of a list keeps a pipeline one that was built, so pipelines
read from settings are among those. -/
theorem of_addListed {listed : List String} {final : Pipeline α} {settings : List PassSettings}
    (built : pipeline.Built) (added : addListed registry listed pipeline settings = .ok final) :
    final.Built := by
  induction settings generalizing listed pipeline with
  | nil =>
    obtain rfl := Except.ok.inj added
    exact built
  | cons entry rest inductionHypothesis =>
    rw [addListed] at added
    split at added
    · cases added
    · split at added
      · cases added
      · split at added
        · exact inductionHypothesis built added
        · obtain ⟨pass, created, others⟩ := bind_eq_ok_iff.mp added
          exact inductionHypothesis (built.withPassAt (provides _ _ _ created) _) others

/-- Settings are built with what the registry provides. If they ask for no sweeps, one is
made all the same. -/
theorem of_settings {settings : PipelineSettings}
    (made : ofSettings registry settings = .ok pipeline) :
    pipeline.Built := by
  obtain ⟨final, added, checked⟩ := bind_eq_ok_iff.mp made
  obtain ⟨_, -, same⟩ := bind_eq_ok_iff.mp checked
  obtain rfl := Except.ok.inj same
  exact of_addListed provides (((Built.empty.withMaxSweeps _).withPruning _).withChecks _) added

end Settings

end Pipeline.Built

/-- Changes that go through sweeps, and through a schedule of passes within each of them: each was
made at a place of the schedule that has the name of its pass. -/
def InOrder (names : List String) (changes : List Change) : Prop :=
  ∃ placed : List (Change × Nat), placed.map Prod.fst = changes ∧
    (∀ entry ∈ placed, names[entry.2]? = some entry.1.pass) ∧ placed.Pairwise Upto

/-- What a run with a schedule of passes and a sweep limit reports agrees with its record and with
the nodes that were there before and after it. -/
structure RunStats.Accounts (names : List String) (limit : Nat) (before : Graph α)
    (after : Progress α) (stats : RunStats) : Prop where
  counted : stats.passesApplied =
    names.eraseDups.map fun id => (id, after.journal.changeCount id)
  started : 1 ≤ stats.totalSweeps
  limited : stats.totalSweeps ≤ limit
  ordered : InOrder names after.journal.changes
  swept : ∀ change ∈ after.journal.changes, 1 ≤ change.sweep ∧ change.sweep ≤ stats.totalSweeps
  busy : ∀ sweep, 1 ≤ sweep → sweep < stats.totalSweeps →
    ∃ change ∈ after.journal.changes, change.sweep = sweep
  unfinished : stats.didNotConverge = true ↔
    ∃ change ∈ after.journal.changes, change.sweep = stats.totalSweeps
  exhausted : stats.didNotConverge = true → stats.totalSweeps = limit
  removed : stats.nodesRemoved = before.nodes.length - after.graph.nodes.length

/-- A run that succeeds reports what it has recorded. Counts, sweeps, order and
convergence are all read off the record, and the removed nodes off the two graphs. -/
theorem run_accounts {graph : Graph α} (reachable : graph.Reachable) {pipeline : Pipeline α}
    (built : pipeline.Built) {stats : RunStats} {after : Progress α}
    (ran : pipeline.runFrom ⟨graph, Journal.fresh⟩ = (.ok stats, after)) :
    ∃ names, pipeline.passOrder = .ok names ∧
      stats.Accounts names pipeline.maxSweeps graph after := by
  obtain ⟨passes, totals, placed, ordered, record, counts, converged, sweeps, removed⟩ :=
    runFrom_record built.provided reachable.sound ran
  have soundAfter : after.graph.Sound := by
    have kept := keeps_runFrom (fun planned listed => (built.provided planned listed).keeps_sound)
      Graph.keeps_prune ⟨graph, Journal.fresh⟩ reachable.sound
    rwa [ran] at kept
  have changes : after.journal.changes = placed.map Prod.fst := record.changes
  have entries {property : Change → Prop} : (∃ change ∈ after.journal.changes, property change) ↔
      ∃ entry ∈ placed, property entry.1 := by
    simp only [changes, List.mem_map, exists_exists_and_eq_and]
  have started : 1 ≤ totals.sweeps := by
    have limited := built.limited
    cases ended : totals.converged with
    | true => exact record.progressed ended
    | false =>
      rw [record.exhausted ended]
      omega
  refine ⟨passes.map Pass.id, by rw [passOrder, ordered]; rfl, ?_, ?_, ?_, ?_, ?_, ?_, ?_, ?_, ?_⟩
  · have keys : totals.counts.map Prod.fst = (passes.map Pass.id).eraseDups :=
      record.keys.trans (keys_start passes)
    have once : (totals.counts.map Prod.fst).Nodup := record.keys ▸ nodup_keys_start passes
    rw [counts, eq_map_countOf once, keys]
    refine List.map_congr_left fun id _ => ?_
    rw [record.counted, countOf_start, Nat.zero_add, Journal.changeCount, changes, List.countP_map]
    rfl
  · rwa [sweeps]
  · rw [sweeps]
    simpa using record.limited
  · exact ⟨placed, changes.symm, record.named, record.ordered⟩
  · rw [changes, sweeps]
    exact List.forall_mem_map.mpr record.swept
  · intro sweep first before
    rw [sweeps] at before
    exact entries.mpr ((record.busy sweep first before.le).mpr (.inl before))
  · rw [entries, sweeps, record.busy totals.sweeps started le_rfl, converged]
    simp
  · intro unfinished
    rw [converged, Bool.not_eq_true'] at unfinished
    rw [sweeps, record.exhausted unfinished, Nat.zero_add]
  · rw [removed, ← reachable.sound.indexed.live, ← soundAfter.indexed.live]

section Restless

/-- A pass with a script for the nodes of a kind. -/
def visiting (id : String) (kind : OpKind) (action : ScriptedAction) : Pass Rat :=
  Script.toPass ⟨id, 0, [], .kind kind, action, true⟩

/-- Two passes of one name with a third in between, none of which ever comes to rest. -/
def restless : Pipeline Rat :=
  (((Pipeline.empty.withPass (visiting "mark" .multiply .claim)).withPass
    (visiting "name" .identity .rename)).withPass
      (visiting "mark" .result .annotate)).withMaxSweeps 2

/-- The pipeline of the example is one that can be built. -/
theorem restless_built : restless.Built :=
  .withMaxSweeps (.withPassAt (.withPassAt (.withPassAt .empty (.scripted _) _) (.scripted _) _)
    (.scripted _) _) 2

/-- Two sweeps of three changes each, of which two are made by the passes of one
name. The limit of two sweeps ends it before it converges. -/
theorem restless_accounts : ∃ stats after names,
    restless.runFrom ⟨scaled, Journal.fresh⟩ = (.ok stats, after) ∧
      stats.passesApplied = [("mark", 4), ("name", 2)] ∧ stats.didNotConverge = true ∧
      names = ["mark", "name", "mark"] ∧ stats.Accounts names 2 scaled after := by
  have ran : (restless.runFrom ⟨scaled, Journal.fresh⟩).1 =
      .ok ⟨[("mark", 4), ("name", 2)], true, 2, 0, []⟩ := by decide +kernel
  obtain ⟨names, ordered, accounts⟩ :=
    run_accounts ⟨scaledSession, rfl⟩ restless_built (eq_of_answer ran)
  obtain rfl := Except.ok.inj ((rfl : restless.passOrder = .ok ["mark", "name", "mark"]).symm.trans
    ordered)
  exact ⟨_, _, _, eq_of_answer ran, rfl, rfl, rfl, accounts⟩

end Restless

end RangeFold
