import RangeFold.Proofs.Scheduling

/-!
# What settings are built into

Entries are looked at one after another, and the first thing to object to ends the building:
a name that is not registered, a name that has been listed before, parameters that a maker
refuses. The first two are asked of every entry, the last of those that are switched on.

Where nothing is objected to, the pipeline is what one gets by adding the passes of the entries
that are switched on, in their order. The entries that are switched off leave no trace in it.
What is left to go wrong is that the hints of these passes run in a circle. That is found out for
certain only if no two of them have one name: a hint is taken to mean the last pass of its name, and
a circle through an earlier one goes unnoticed.
-/

namespace RangeFold

open Relation Schedule

variable {α : Type}

namespace PassSettings

/-- What the registry makes of an entry. -/
def make (registry : Registry α) (entry : PassSettings) : Except Failure (Pass α) :=
  registry.create entry.id ⟨entry.id, entry.parameters⟩

/-- What there is to object to in an entry that stands behind others, if anything. The maker is
asked only about an entry that is switched on. -/
def objection (registry : Registry α) (before : List PassSettings) (entry : PassSettings) :
    Option Failure :=
  if registry.contains entry.id = false then some (.unknownPass entry.id)
  else if entry.id ∈ before.map PassSettings.id then
    some (.invalidParameter entry.id "id" .listedTwice)
  else if entry.enabled = false then none
  else
    match entry.make registry with
    | .error failure => some failure
    | .ok _ => none

/-- There is nothing to object to in any entry of a list. -/
def Admissible (registry : Registry α) (passes : List PassSettings) : Prop :=
  ∀ before entry after, passes = before ++ entry :: after → entry.objection registry before = none

/-- What there is to object to in the first entry of a list in which there is anything. -/
def FirstObjection (registry : Registry α) (passes : List PassSettings) (failure : Failure) :
    Prop :=
  ∃ before entry after, passes = before ++ entry :: after ∧ Admissible registry before ∧
    entry.objection registry before = some failure

variable {registry : Registry α} {passes before : List PassSettings} {entry : PassSettings}
  {failure other : Failure}

/-- There is nothing to object to in an entry whose id is known and new and, if the
entry is enabled, whose pass can be made. A disabled entry is not asked for its
parameters. -/
theorem objection_eq_none_iff : entry.objection registry before = none ↔
    registry.contains entry.id = true ∧ entry.id ∉ before.map PassSettings.id ∧
      (entry.enabled = true → ∃ pass, entry.make registry = .ok pass) := by
  unfold objection
  cases entry.make registry <;> split_ifs <;> simp_all

/-- There is nothing to object to in no entries. -/
theorem admissible_nil : Admissible registry [] := by
  intro before entry after split
  simp at split

/-- One more entry at the end is looked at last. Entries are admitted in order, each
in view of those before it. -/
theorem admissible_concat_iff : Admissible registry (passes ++ [entry]) ↔
    Admissible registry passes ∧ entry.objection registry passes = none := by
  constructor
  · intro admissible
    refine ⟨fun before other after split => ?_, admissible passes entry [] rfl⟩
    exact admissible before other (after ++ [entry]) (by simp [split])
  · rintro ⟨admissible, unobjected⟩ before other after split
    rcases List.eq_nil_or_concat after with rfl | ⟨after, last, rfl⟩
    · obtain ⟨rfl, same⟩ := List.append_inj' split rfl
      obtain rfl := List.singleton_inj.mp same
      exact unobjected
    · rw [List.concat_eq_append, ← List.cons_append, ← List.append_assoc] at split
      exact admissible before other after (List.append_inj' split rfl).1

/-- So a list is admissible if its names are registered and different and the makers accept
what is switched on. -/
theorem admissible_iff : Admissible registry passes ↔
    (∀ entry ∈ passes, registry.contains entry.id = true) ∧ (passes.map PassSettings.id).Nodup ∧
      ∀ entry ∈ passes, entry.enabled = true → ∃ pass, entry.make registry = .ok pass := by
  induction passes using List.reverseRecOn with
  | nil => simp [admissible_nil]
  | append_singleton passes entry inductionHypothesis =>
    rw [admissible_concat_iff, inductionHypothesis, objection_eq_none_iff]
    simp only [List.map_append, List.map_singleton, List.nodup_append, List.forall_mem_append,
      List.forall_mem_singleton]
    grind

/-- Leaving the disabled entries out gives no new cause for objection, because what
comes before an entry only becomes less. -/
theorem Admissible.filter (admissible : Admissible registry passes) :
    Admissible registry (passes.filter PassSettings.enabled) := by
  obtain ⟨known, distinct, made⟩ := admissible_iff.mp admissible
  refine admissible_iff.mpr ⟨fun entry listed => known entry (List.mem_filter.mp listed).1,
    distinct.sublist (List.filter_sublist.map _), ?_⟩
  exact fun entry listed => made entry (List.mem_filter.mp listed).1

/-- A first objection is one, so the list is not admissible. -/
theorem FirstObjection.not_admissible (objected : FirstObjection registry passes failure) :
    ¬ Admissible registry passes := by
  obtain ⟨before, entry, after, split, -, objection⟩ := objected
  intro admissible
  cases objection.symm.trans (admissible before entry after split)

/-- An objection is the same as one that comes no earlier and has none before it.
The two entries stand in one place of the list. -/
theorem objection_unique {between after afterToo : List PassSettings} {entryToo : PassSettings}
    (rest : entry :: after = between ++ entryToo :: afterToo)
    (objection : entry.objection registry before = some failure)
    (admissible : Admissible registry (before ++ between))
    (objectionToo : entryToo.objection registry (before ++ between) = some other) :
    failure = other := by
  cases between with
  | nil =>
    obtain ⟨rfl, -⟩ := List.cons.inj rest
    rw [List.append_nil] at objectionToo
    exact Option.some.inj (objection.symm.trans objectionToo)
  | cons first between =>
    obtain ⟨rfl, -⟩ := List.cons.inj rest
    cases objection.symm.trans (admissible before entry between rfl)

/-- There is one first objection at most. Settings that are refused are thus refused
for one reason. -/
theorem FirstObjection.unique (objected : FirstObjection registry passes failure)
    (objectedToo : FirstObjection registry passes other) : failure = other := by
  obtain ⟨before, entry, after, split, admissible, objection⟩ := objected
  obtain ⟨beforeToo, entryToo, afterToo, splitToo, admissibleToo, objectionToo⟩ := objectedToo
  rcases List.append_eq_append_iff.mp (split.symm.trans splitToo) with
    ⟨between, rfl, rest⟩ | ⟨between, rfl, rest⟩
  · exact objection_unique rest objection admissibleToo objectionToo
  · exact (objection_unique rest objectionToo admissible objection).symm

end PassSettings

namespace Pipeline

open PassSettings

/-- A pipeline with the options of the settings and no passes. -/
def bare (settings : PipelineSettings) : Pipeline α :=
  ((Pipeline.empty.withMaxSweeps settings.maxSweeps).withPruning settings.prunes).withChecks
    settings.checks

/-- Add the pass of an entry at the priority that the entry states, or else at its usual one. -/
def withEntry (registry : Registry α) (pipeline : Pipeline α) (entry : PassSettings) :
    Pipeline α :=
  match entry.make registry with
  | .ok pass => pipeline.withPassAt pass (entry.priority.getD pass.priority)
  | .error _ => pipeline

/-- Add the passes of all entries that are switched on. -/
def withEntries (registry : Registry α) (pipeline : Pipeline α) (passes : List PassSettings) :
    Pipeline α :=
  (passes.filter PassSettings.enabled).foldl (withEntry registry) pipeline

/-- The pipeline that the settings describe. -/
def assembled (registry : Registry α) (settings : PipelineSettings) : Pipeline α :=
  (bare settings).withEntries registry settings.passes

variable {registry : Registry α} {pipeline start : Pipeline α} {entry : PassSettings}
  {done rest : List PassSettings} {settings : PipelineSettings}

/-- The last entry is added last, if it is enabled. -/
theorem withEntries_concat : start.withEntries registry (done ++ [entry]) =
    if entry.enabled then withEntry registry (start.withEntries registry done) entry
    else start.withEntries registry done := by
  unfold withEntries
  cases enabled : entry.enabled <;> simp [List.filter_append, enabled]

/-- An entry is added or objected to. The ids seen so far are carried along as a
list. -/
theorem addListed_cons {listed : List String}
    (same : ∀ id, id ∈ listed ↔ id ∈ done.map PassSettings.id) :
    addListed registry listed (start.withEntries registry done) (entry :: rest) =
      match entry.objection registry done with
      | some failure => .error failure
      | none =>
        addListed registry (entry.id :: listed) (start.withEntries registry (done ++ [entry]))
          rest := by
  rw [addListed, withEntries_concat, objection]
  by_cases known : registry.contains entry.id = true
  · by_cases repeated : entry.id ∈ listed
    · simp [known, repeated, (same entry.id).mp repeated]
    · have new : entry.id ∉ done.map PassSettings.id := mt (same entry.id).mpr repeated
      cases enabled : entry.enabled with
      | false => simp [known, repeated, new]
      | true =>
        cases made : entry.make registry with
        | error failure =>
          rw [make] at made
          simp [known, repeated, new, made]
        | ok pass =>
          have added : withEntry registry (start.withEntries registry done) entry =
              (start.withEntries registry done).withPassAt pass
                (entry.priority.getD pass.priority) := by rw [withEntry, made]
          rw [make] at made
          simp [known, repeated, new, made, added]
  · simp [known]

/-- Entries behind others that are admissible are all added, or there is a first one that is
objected to. -/
theorem addListed_verdict {listed : List String}
    (same : ∀ id, id ∈ listed ↔ id ∈ done.map PassSettings.id)
    (admissible : Admissible registry done) :
    (addListed registry listed (start.withEntries registry done) rest =
        .ok (start.withEntries registry (done ++ rest)) ∧ Admissible registry (done ++ rest)) ∨
      ∃ failure, addListed registry listed (start.withEntries registry done) rest =
        .error failure ∧ FirstObjection registry (done ++ rest) failure := by
  -- an entry that is not objected to moves over to those that are done
  induction rest generalizing listed done with
  | nil => exact .inl ⟨by rw [addListed, List.append_nil], by rwa [List.append_nil]⟩
  | cons entry rest inductionHypothesis =>
    rw [addListed_cons same]
    cases objected : entry.objection registry done with
    | some failure => exact .inr ⟨failure, rfl, done, entry, rest, rfl, admissible, objected⟩
    | none =>
      have longer : done ++ entry :: rest = (done ++ [entry]) ++ rest := by simp
      rw [longer]
      exact inductionHypothesis (fun id => by simp [same, or_comm])
        (admissible_concat_iff.mpr ⟨admissible, objected⟩)

/-- What is described is built if it has an order, unless there is something to
object to. Nothing else is looked at. -/
theorem ofSettings_verdict (registry : Registry α) (settings : PipelineSettings) :
    (Admissible registry settings.passes ∧ ofSettings registry settings =
        (assembled registry settings).passOrder >>= fun _ => .ok (assembled registry settings)) ∨
      ∃ failure, FirstObjection registry settings.passes failure ∧
        ofSettings registry settings = .error failure := by
  have unlisted (id : String) : id ∈ ([] : List String) ↔ id ∈ ([] : List PassSettings).map
      PassSettings.id := by simp
  rcases @addListed_verdict α registry (bare settings) [] settings.passes [] unlisted
    admissible_nil with ⟨added, admissible⟩ | ⟨failure, refused, objected⟩
  · have building : addListed registry [] (bare settings) settings.passes =
        .ok (assembled registry settings) := added
    exact .inl ⟨admissible, by rw [ofSettings, ← bare, building]; rfl⟩
  · have building : addListed registry [] (bare settings) settings.passes =
        .error failure := refused
    exact .inr ⟨failure, objected, by rw [ofSettings, ← bare, building]; rfl⟩

/-- Settings are accepted if no entry is objected to and the pipeline they describe
can be ordered. The order is computed only to be checked. -/
theorem ofSettings_eq_ok_iff : ofSettings registry settings = .ok pipeline ↔
    Admissible registry settings.passes ∧ pipeline = assembled registry settings ∧
      ∃ ids, pipeline.passOrder = .ok ids := by
  rcases ofSettings_verdict registry settings with
    ⟨admissible, built⟩ | ⟨failure, objected, refused⟩
  · rw [built, Attempt.bind_eq_ok_iff]
    constructor
    · rintro ⟨ids, ordered, same⟩
      obtain rfl := Except.ok.inj same
      exact ⟨admissible, rfl, ids, ordered⟩
    · rintro ⟨-, rfl, ids, ordered⟩
      exact ⟨ids, ordered, rfl⟩
  · rw [refused]
    exact iff_of_false (by simp) fun built => objected.not_admissible built.1

/-- Settings are refused for the first objection or, if there is none, for the order
of the passes. -/
theorem ofSettings_eq_error_iff {failure : Failure} :
    ofSettings registry settings = .error failure ↔
      FirstObjection registry settings.passes failure ∨
        Admissible registry settings.passes ∧
          (assembled registry settings).passOrder = .error failure := by
  rcases ofSettings_verdict registry settings with
    ⟨admissible, built⟩ | ⟨other, objected, refused⟩
  · have unobjected : ¬ FirstObjection registry settings.passes failure :=
      fun objected => objected.not_admissible admissible
    rw [built, Attempt.bind_eq_error_iff]
    simp [unobjected, admissible]
  · rw [refused, Except.error.injEq]
    constructor
    · rintro rfl
      exact .inl objected
    · rintro (objectedToo | ⟨admissible, -⟩)
      · exact objected.unique objectedToo
      · exact absurd admissible objected.not_admissible

/-- Entries that are switched off do not show in what is described. They are still
objected to when their id is unknown or repeated. -/
theorem assembled_filter : assembled registry
    { settings with passes := settings.passes.filter PassSettings.enabled } =
      assembled registry settings := by
  simp [assembled, withEntries, bare]

/-- Adding passes leaves the limit on the sweeps. -/
theorem maxSweeps_withEntries (passes : List PassSettings) :
    (start.withEntries registry passes).maxSweeps = start.maxSweeps := by
  induction passes using List.reverseRecOn with
  | nil => rfl
  | append_singleton passes entry inductionHypothesis =>
    rw [withEntries_concat]
    split
    · rw [withEntry]
      split <;> exact inductionHypothesis
    · exact inductionHypothesis

end Pipeline

open Pipeline PassSettings

/-- What it takes to build from settings, with a reading of the hints: the listed names are registered
and different, the makers accept the parameters of what is switched on, and the hints of these passes
do not run in a circle. -/
structure Buildable (registry : Registry α) (settings : PipelineSettings)
    (reading : List ScheduleEntry → Nat → Nat → Prop) : Prop where
  known : ∀ entry ∈ settings.passes, registry.contains entry.id = true
  distinct : (settings.passes.map PassSettings.id).Nodup
  made : ∀ entry ∈ settings.passes, entry.enabled = true → ∃ pass, entry.make registry = .ok pass
  straight : ∀ place, ¬ TransGen (reading (assembled registry settings).entries) place place

/-- A reading by which fewer hints hold asks for less. Whatever can be ordered under
the stronger reading can be ordered under the weaker one. -/
theorem Buildable.mono {registry : Registry α} {settings : PipelineSettings}
    {reading weaker : List ScheduleEntry → Nat → Nat → Prop}
    (buildable : Buildable registry settings reading)
    (implied : ∀ entries first second, weaker entries first second → reading entries first second) :
    Buildable registry settings weaker where
  known := buildable.known
  distinct := buildable.distinct
  made := buildable.made
  straight place cycle :=
    buildable.straight place (TransGen.mono (implied _) place place cycle)

/-- The hints that are checked are those at the last pass of each name. Hints at an
earlier pass of the same name are not looked at. -/
theorem exists_ofSettings_iff {registry : Registry α} {settings : PipelineSettings} :
    (∃ pipeline, ofSettings registry settings = .ok pipeline) ↔
      Buildable registry settings Binds := by
  simp only [ofSettings_eq_ok_iff, admissible_iff]
  constructor
  · rintro ⟨pipeline, ⟨known, distinct, made⟩, rfl, ordered⟩
    exact ⟨known, distinct, made, exists_passOrder_iff.mp ordered⟩
  · rintro ⟨known, distinct, made, straight⟩
    exact ⟨_, ⟨known, distinct, made⟩, rfl, exists_passOrder_iff.mpr straight⟩

/-- Between passes with different names a hint means the one pass that has the name.
What is checked is then what was meant. -/
theorem binds_of_distinct_passes {pipeline : Pipeline α}
    (distinct : (pipeline.passes.map fun planned => planned.pass.id).Nodup) :
    Binds pipeline.entries = Precedes pipeline.entries := by
  refine binds_of_distinct ?_
  rwa [Pipeline.entries, List.map_map]

/-- Building from settings succeeds if all listed names are registered and different, the makers
accept the parameters of what is switched on, and the hints of these passes do not run in a circle.
If no two of these passes share a name it succeeds exactly then; if some do, it succeeds exactly if
the hints at the last pass of each name do not run in a circle. It fails with the first objection to
an entry, or without any because there is no order. What is built is what is described, and would be
built without the entries that are switched off. -/
theorem ofSettings_exact (registry : Registry α) (settings : PipelineSettings) :
    (Buildable registry settings Precedes →
      ∃ pipeline, ofSettings registry settings = .ok pipeline) ∧
    (((assembled registry settings).passes.map fun planned => planned.pass.id).Nodup →
      ((∃ pipeline, ofSettings registry settings = .ok pipeline) ↔
        Buildable registry settings Precedes)) ∧
    ((∃ pipeline, ofSettings registry settings = .ok pipeline) ↔
      Buildable registry settings Binds) ∧
    (∀ failure, ofSettings registry settings = .error failure ↔
      FirstObjection registry settings.passes failure ∨
        Admissible registry settings.passes ∧
          (assembled registry settings).passOrder = .error failure) ∧
    ∀ pipeline, ofSettings registry settings = .ok pipeline →
      pipeline = assembled registry settings ∧ pipeline.maxSweeps = max settings.maxSweeps 1 ∧
        ofSettings registry
          { settings with passes := settings.passes.filter PassSettings.enabled } =
            .ok pipeline := by
  have accepts (buildable : Buildable registry settings Precedes) :
      ∃ pipeline, ofSettings registry settings = .ok pipeline :=
    exists_ofSettings_iff.mpr (buildable.mono fun _ _ _ => And.left)
  refine ⟨accepts, fun distinct => ⟨fun built => ?_, accepts⟩, exists_ofSettings_iff,
    fun failure => ofSettings_eq_error_iff, fun pipeline built => ?_⟩
  · obtain ⟨known, different, made, straight⟩ := exists_ofSettings_iff.mp built
    exact ⟨known, different, made, binds_of_distinct_passes distinct ▸ straight⟩
  · obtain ⟨admissible, rfl, ordered⟩ := ofSettings_eq_ok_iff.mp built
    refine ⟨rfl, maxSweeps_withEntries _, ofSettings_eq_ok_iff.mpr ?_⟩
    exact ⟨admissible.filter, assembled_filter.symm, ordered⟩

section Mixed

/-- Settings without a sweep, in which constant folding comes first at a priority of its own, a
pass that is switched off has a parameter that it does not know and one pass is listed under its
second name. -/
def mixedSettings : PipelineSettings :=
  { PipelineSettings.standard with
    maxSweeps := 0
    passes := [⟨"fuse_quantization_range", true, some (-1), [("max_chain_length", .int 3)]⟩,
      ⟨"eliminate_identity", false, none, [("depth", .int 1)]⟩, .plain "shift_again"] }

/-- Settings that list a pass twice, with a parameter that it does not know, before a name that is
not registered. -/
def faultySettings : PipelineSettings :=
  { PipelineSettings.standard with
    passes := [⟨"eliminate_identity", false, none, [("depth", .int 1)]⟩,
      ⟨"eliminate_identity", true, none, [("depth", .int 1)]⟩, .plain "absent"] }

/-- Two passes, of which one is hinted to run after itself and the other after that one. -/
def circular : Registry Rat :=
  (Registry.empty.register "behind" (makePlain (placed "behind" 0 ["circle"]))).register "circle"
    (makePlain (placed "circle" 0 ["circle"]))

/-- What the mixed settings describe is built, so the hints there do not run in a circle. The faulty
ones are refused for the pass that is listed twice, and would be for its parameter if it were
not. The circle is refused unless it is switched off. -/
theorem mixed_and_faulty_settings :
    (∃ pipeline, ofSettings twiceRegistered mixedSettings = .ok pipeline ∧
      pipeline.maxSweeps = 1 ∧ pipeline.passes.map (fun planned => (planned.pass.id,
        planned.priority)) = [("fuse_quantization_range", -1),
          ("fuse_add_to_quantization_range", 20)] ∧
      ofSettings twiceRegistered
        { mixedSettings with passes := mixedSettings.passes.filter PassSettings.enabled } =
          .ok pipeline ∧
      Buildable twiceRegistered mixedSettings Precedes) ∧
    ofSettings twiceRegistered faultySettings =
      .error (.invalidParameter "eliminate_identity" "id" .listedTwice) ∧
    ofSettings twiceRegistered { faultySettings with passes := faultySettings.passes.tail } =
      .error (.invalidParameter "eliminate_identity" "depth" .unknown) ∧
    ofSettings circular (PipelineSettings.allPasses circular) =
      .error (.orderingCycle ["behind", "circle"]) ∧
    ∃ pipeline, ofSettings circular { PipelineSettings.standard with
      passes := [.plain "behind", ⟨"circle", false, none, []⟩] } = .ok pipeline := by
  obtain ⟨-, accepted, -, -, built⟩ := ofSettings_exact twiceRegistered mixedSettings
  obtain ⟨-, -, -, refused, -⟩ := ofSettings_exact twiceRegistered faultySettings
  obtain ⟨-, -, -, refusedToo, -⟩ := ofSettings_exact twiceRegistered
    { faultySettings with passes := faultySettings.passes.tail }
  obtain ⟨pipeline, made⟩ : ∃ pipeline, ofSettings twiceRegistered mixedSettings = .ok pipeline :=
    ⟨_, rfl⟩
  obtain ⟨rfl, sweeps, filtered⟩ := built pipeline made
  have alone : Admissible twiceRegistered [⟨"eliminate_identity", false, none,
      [("depth", .int 1)]⟩] := admissible_concat_iff.mpr ⟨admissible_nil, rfl⟩
  obtain ⟨-, -, -, tangled, -⟩ := ofSettings_exact circular (PipelineSettings.allPasses circular)
  have listed : Admissible circular [.plain "behind", .plain "circle"] :=
    admissible_concat_iff.mpr ⟨admissible_concat_iff.mpr ⟨admissible_nil, rfl⟩, rfl⟩
  refine ⟨⟨_, made, sweeps, rfl, filtered, (accepted (by decide)).mp ⟨_, made⟩⟩, ?_, ?_, ?_, _, rfl⟩
  · exact (refused _).mpr (.inl ⟨_, _, _, rfl, alone, rfl⟩)
  · exact (refusedToo _).mpr (.inl ⟨[], _, _, rfl, admissible_nil, rfl⟩)
  · exact (tangled _).mpr (.inr ⟨listed, rfl⟩)

end Mixed

section Shadowed

/-- Two passes that are hinted to run after each other, and a third one without hints that has the name
of the first. -/
def shadowed : Registry Rat :=
  ((Registry.empty.register "one" (makePlain (placed "a" 0 ["b"]))).register "two"
    (makePlain (placed "b" 0 ["a"]))).register "three" (makePlain (placed "a" 0 []))

/-- There is nothing to object to in the entries, and the hints of the first two passes run in a circle.
Still the pipeline is built, as the hint at the name they share means the third pass. -/
theorem shadowed_circle_built :
    Admissible shadowed (PipelineSettings.allPasses shadowed).passes ∧
      TransGen (Precedes
        (assembled shadowed (PipelineSettings.allPasses shadowed)).entries) 0 0 ∧
      ¬ Buildable shadowed (PipelineSettings.allPasses shadowed) Precedes ∧
      ∃ pipeline, ofSettings shadowed (PipelineSettings.allPasses shadowed) = .ok pipeline ∧
        pipeline.passOrder = .ok ["a", "b", "a"] := by
  have admissible : Admissible shadowed [.plain "one", .plain "two", .plain "three"] :=
    admissible_concat_iff.mpr ⟨admissible_concat_iff.mpr
      ⟨admissible_concat_iff.mpr ⟨admissible_nil, rfl⟩, rfl⟩, rfl⟩
  have circle : TransGen (Precedes
      (assembled shadowed (PipelineSettings.allPasses shadowed)).entries) 0 0 :=
    .head (b := 1) ⟨_, _, rfl, rfl, by decide⟩ (.single ⟨_, _, rfl, rfl, by decide⟩)
  exact ⟨admissible, circle, fun buildable => buildable.straight 0 circle, _, rfl, rfl⟩

end Shadowed

end RangeFold
