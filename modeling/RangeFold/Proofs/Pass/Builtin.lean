import RangeFold.Pipeline.Settings
import RangeFold.Proofs.Pass.BoundFusion
import RangeFold.Proofs.Pass.ConstantFolding
import RangeFold.Proofs.Pipeline.Schedules

/-!
# Builtin passes

The four passes of this library, constant folding with any limit. They are what the builtin
registry makes, and so what pipelines that are set up from it run. All of them are reliable, and
their hints never run in a circle: only constant folding has hints, and they mean the two
fusions.
-/

namespace RangeFold

variable {α : Type} [Arithmetic α]

/-- The passes of this library, with any parameters. -/
inductive Pass.Builtin : Pass α → Prop where
  | elimination : Builtin identityElimination
  | scaling : Builtin scaleFusion
  | shifting : Builtin shiftFusion
  | folding (limit : Nat) : Builtin (constantFolding limit)

namespace Pass.Builtin

variable {pass : Pass α}

/-- Each of the passes has a verdict wherever it admits a node of a sound graph.
Whatever is proved of reliable passes holds for all of them. -/
theorem reliable (builtin : pass.Builtin) : pass.Reliable := by
  cases builtin with
  | elimination => exact identityElimination_reliable
  | scaling => exact scaleFusion_reliable
  | shifting => exact shiftFusion_reliable
  | folding limit => exact constantFolding_reliable limit

/-- The elimination is told by its name. No other builtin pass has it. -/
theorem eq_elimination (builtin : pass.Builtin) (named : pass.id = "eliminate_identity") :
    pass = identityElimination := by
  cases builtin with
  | elimination => rfl
  | scaling =>
    exact absurd named (show ("fuse_multiply_to_quantization_range" : String) ≠ _ by decide)
  | shifting =>
    exact absurd named (show ("fuse_add_to_quantization_range" : String) ≠ _ by decide)
  | folding limit =>
    exact absurd named (show ("fuse_quantization_range" : String) ≠ _ by decide)

/-- Only passes without hints are hinted at. So the number of hints falls along
them, and no circle can close. -/
theorem hint_lower {other : Pass α} (builtin : pass.Builtin) (builtinOther : other.Builtin)
    (hinted : other.id ∈ pass.runsAfter) : other.runsAfter.length < pass.runsAfter.length := by
  cases builtin with
  | elimination | scaling | shifting => exact absurd hinted List.not_mem_nil
  | folding limit =>
    cases builtinOther with
    | elimination | scaling | shifting => exact Nat.zero_lt_two
    | folding other =>
      exact absurd hinted (show ("fuse_quantization_range" : String) ∉
        ["fuse_multiply_to_quantization_range", "fuse_add_to_quantization_range"] by decide)

end Pass.Builtin

/-- The builtin registry makes builtin passes only. Parameters choose among them or
set a limit, and make no other kind. -/
theorem Registry.builtin_of_create {id : String} {parameters : Parameters} {pass : Pass α}
    (made : Registry.builtin.create id parameters = .ok pass) : pass.Builtin := by
  have plain {other : Pass α} (builtin : other.Builtin)
      (made : makePlain other parameters = .ok pass) : pass.Builtin := by
    obtain ⟨_, -, same⟩ := Attempt.bind_eq_ok_iff.mp made
    exact Except.ok.inj same ▸ builtin
  unfold Registry.create at made
  split at made
  · rename_i maker looked
    obtain ⟨before, after, entries, -⟩ := List.lookup_eq_some_iff.mp looked
    have known : (id, maker) ∈ (Registry.builtin : Registry α).makers := by simp [entries]
    have makers : (Registry.builtin : Registry α).makers =
      [("eliminate_identity", makePlain identityElimination),
        ("fuse_multiply_to_quantization_range", makePlain scaleFusion),
        ("fuse_add_to_quantization_range", makePlain shiftFusion),
        ("fuse_quantization_range", makeConstantFolding)] := rfl
    simp only [makers, List.mem_cons, Prod.mk.injEq, List.not_mem_nil, or_false] at known
    rcases known with ⟨-, rfl⟩ | ⟨-, rfl⟩ | ⟨-, rfl⟩ | ⟨-, rfl⟩
    · exact plain .elimination made
    · exact plain .scaling made
    · exact plain .shifting made
    · obtain ⟨_, -, reading⟩ := Attempt.bind_eq_ok_iff.mp made
      obtain ⟨limit, -, same⟩ := Attempt.bind_eq_ok_iff.mp reading
      exact Except.ok.inj same ▸ .folding limit
  · cases made

namespace Pipeline

/-- Passes that a registry makes are added to others. By induction on the list, a
disabled entry adding nothing. -/
theorem builtin_of_addListed {listed : List String} {entries : List PassSettings}
    {start pipeline : Pipeline α} (builtin : ∀ planned ∈ start.passes, planned.pass.Builtin)
    (made : addListed Registry.builtin listed start entries = .ok pipeline) :
    ∀ planned ∈ pipeline.passes, planned.pass.Builtin := by
  induction entries generalizing listed start with
  | nil => exact Except.ok.inj made ▸ builtin
  | cons settings rest inductionHypothesis =>
    unfold addListed at made
    split at made
    · cases made
    · split at made
      · cases made
      · split at made
        · exact inductionHypothesis builtin made
        · obtain ⟨pass, created, adding⟩ := Attempt.bind_eq_ok_iff.mp made
          refine inductionHypothesis (fun planned member => ?_) adding
          rcases List.mem_append.mp member with old | new
          · exact builtin planned old
          · rw [List.mem_singleton.mp new]
            exact Registry.builtin_of_create created

/-- A pipeline that is set up from the builtin registry has builtin passes only.
Which passes are listed and how often makes no difference to it. -/
theorem builtin_of_settings {settings : PipelineSettings} {pipeline : Pipeline α}
    (made : ofSettings Registry.builtin settings = .ok pipeline) :
    ∀ planned ∈ pipeline.passes, planned.pass.Builtin := by
  obtain ⟨middle, adding, ordering⟩ := Attempt.bind_eq_ok_iff.mp made
  obtain ⟨_, -, same⟩ := Attempt.bind_eq_ok_iff.mp ordering
  obtain rfl := Except.ok.inj same
  exact builtin_of_addListed (fun _ none => absurd none List.not_mem_nil) adding

/-- A pipeline of builtin passes has an order in which all of them take part. A pass
may be listed several times, with any priorities. -/
theorem scheduled_of_builtin {pipeline : Pipeline α}
    (builtin : ∀ planned ∈ pipeline.passes, planned.pass.Builtin) :
    ∃ passes, pipeline.scheduled = .ok passes ∧
      ∀ planned ∈ pipeline.passes, planned.pass ∈ passes := by
  refine scheduled_eq_ok (fun entry => entry.runsAfter.length) ?_
  intro entry listed other listedOther hinted
  obtain ⟨planned, member, rfl⟩ := List.mem_map.mp listed
  obtain ⟨plannedOther, memberOther, rfl⟩ := List.mem_map.mp listedOther
  exact (builtin planned member).hint_lower (builtin plannedOther memberOther) hinted

/-- The passes of a pipeline of builtin passes are reliable. This is the form in
which runs use it. -/
theorem reliable_of_builtin {pipeline : Pipeline α}
    (builtin : ∀ planned ∈ pipeline.passes, planned.pass.Builtin) :
    ∀ planned ∈ pipeline.passes, planned.pass.Reliable :=
  fun planned listed => (builtin planned listed).reliable

/-- All passes of this library at their usual priorities. -/
def allBuiltin : Pipeline α :=
  (((Pipeline.empty.withPass identityElimination).withPass scaleFusion).withPass
    shiftFusion).withPass (constantFolding defaultChainLimit)

/-- The standard pipeline is made of builtin passes alone, so whatever holds for
those holds for its runs. -/
theorem allBuiltin_builtin :
    ∀ planned ∈ (allBuiltin : Pipeline α).passes, planned.pass.Builtin := by
  simp only [allBuiltin, withPass, withPassAt, empty, List.nil_append, List.cons_append,
    List.forall_mem_cons]
  exact ⟨.elimination, .scaling, .shifting, .folding defaultChainLimit, by simp⟩

/-- That is the pipeline that the builtin registry makes where nothing is stated.
Its order exists, as it must for any pipeline of builtin passes. -/
theorem builtin_eq : (Pipeline.builtin : Except Failure (Pipeline α)) = .ok allBuiltin := by
  obtain ⟨passes, ordered, -⟩ :=
    scheduled_of_builtin (allBuiltin_builtin : ∀ planned ∈ (allBuiltin : Pipeline α).passes, _)
  have listed : addListed (Registry.builtin : Registry α) [] Pipeline.empty
      (PipelineSettings.allPasses (Registry.builtin : Registry α)).passes = .ok allBuiltin := rfl
  show (addListed (Registry.builtin : Registry α) [] Pipeline.empty _ >>= fun pipeline =>
    pipeline.passOrder >>= fun _ => pure pipeline) = _
  rw [listed, Attempt.ok_bind, passOrder, ordered]
  rfl

end Pipeline

end RangeFold
