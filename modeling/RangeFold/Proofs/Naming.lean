import RangeFold.Proofs.Graph.Checks
import RangeFold.Proofs.Graph.Substitution
import RangeFold.Proofs.Refusal
import RangeFold.Proofs.Typing.Faults

/-!
# Free names

A node that a pass adds needs a name while the node it is to replace still has its own. The
name is made from a base: the base itself if no live node has it, otherwise the base with the
least number that makes it free. Such a number is never far to seek. The base and the names
with smaller numbers are all different, since the digits of a number tell what it is, and all
taken, so there are no more of them than live nodes.

A node added under a free name can only be refused by its typing rule.
-/

namespace RangeFold

variable {α : Type}

namespace Graph

/-- Some live node has the name. -/
def Named (graph : Graph α) (name : String) : Prop := ∃ id, graph.nameAt id = some name

section Naming

variable {graph : Graph α}

/-- The index knows which names are taken. The search for a free one may rely on it. -/
theorem Indexed.findName_eq_none_iff_free (indexed : graph.Indexed) {name : String} :
    graph.findName name = none ↔ ¬ graph.Named name :=
  indexed.findName_eq_none_iff.trans not_exists.symm

/-- A node that is added under a free name is refused by its typing rule or not at
all. That the name is taken cannot be the reason. -/
theorem addNode_of_free [Arithmetic α] {name : String} (free : graph.findName name = none)
    (kind : OpKind) (inputs : List OutputRef) (attributes : Attributes α) :
    RangeFold.FailsOnly (Failure.OfRule name) (addNode kind name inputs attributes graph).1 := by
  have unnamed : ¬ (graph.findName name).isSome = true := by simp [free]
  have reading : RangeFold.FailsOnly (Failure.OfRule name) (graph.typesOf name inputs) := by
    refine .mapM (fun source => ?_) inputs
    split
    · exact .ok _
    · exact .error (.ofInputs rfl)
  cases known : graph.typesOf name inputs with
  | error failure =>
    rw [addNode, Attempt.read_bind, if_neg unnamed, Attempt.lift_bind_of_error known]
    exact .error (reading failure known)
  | ok inputTypes =>
    cases typed : inferOutputs kind name inputTypes attributes with
    | error failure =>
      rw [addNode, Attempt.read_bind, if_neg unnamed, Attempt.lift_bind_of_ok known,
        Attempt.lift_bind_of_error typed]
      exact .error (inferOutputs_ofRule failure typed)
    | ok outputTypes =>
      rw [addNode_eq free (typesOf_eq_ok_iff.mp known) typed]
      exact .ok _

end Naming

/-- The unique name is one that no live node has: the base if it is free, otherwise the base
with the least positive number that makes it free, which is at most the number of live nodes.
No node that is added under it is refused because of its name. -/
theorem uniqueName_exact [Arithmetic α] {graph : Graph α} (reachable : graph.Reachable)
    (base : String) :
    ¬ graph.Named (graph.uniqueName base) ∧
      (¬ graph.Named base → graph.uniqueName base = base) ∧
      (graph.Named base → graph.uniqueName base ≠ base ∧
        ∃ number, 0 < number ∧ number ≤ graph.live ∧
          graph.uniqueName base = base ++ "_" ++ toString number ∧
          ∀ smaller, 0 < smaller → smaller < number →
            graph.Named (base ++ "_" ++ toString smaller)) ∧
      ∀ kind inputs attributes taken,
        (addNode kind (graph.uniqueName base) inputs attributes graph).1 ≠
          .error (.nameTaken taken) := by
  have indexed := reachable.sound.indexed
  have free : ¬ graph.Named (graph.uniqueName base) :=
    indexed.findName_eq_none_iff_free.mp (findName_uniqueName graph base)
  refine ⟨free, fun unnamed => ?_, fun named => ?_, fun kind inputs attributes taken refused => ?_⟩
  · have absent := indexed.findName_eq_none_iff_free.mpr unnamed
    simp [uniqueName, absent]
  · have taken : graph.findName base ≠ none :=
      fun absent => indexed.findName_eq_none_iff_free.mp absent named
    obtain ⟨number, positive, same, -, smallest⟩ := uniqueName_of_taken taken
    have bounded := @le_names_length_of_taken α graph base (number - 1) taken
      fun index below => smallest (index + 1) index.succ_pos (by omega)
    rw [indexed.names_length] at bounded
    refine ⟨fun unchanged => free (unchanged.symm ▸ named), number, positive, by omega, same, ?_⟩
    intro smaller above below
    by_contra unnamed
    exact smallest smaller above below (indexed.findName_eq_none_iff_free.mpr unnamed)
  · have blamed := addNode_of_free (findName_uniqueName graph base) kind inputs attributes _ refused
    cases blamed

/-- Entries that have the names one would try first. -/
def crowdedSession : List (Call Rat) :=
  [.add .parameter "q_folded" [] (vectorEntry 2),
    .add .parameter "q_folded_1" [] (vectorEntry 2),
    .add .parameter "q_folded_3" [] (vectorEntry 2)]

/-- The graph that the session builds. -/
def crowded : Graph Rat := Call.performAll crowdedSession empty

/-- With the base name and its first number taken, the second number is chosen. -/
theorem crowded_uniqueName :
    crowded.Reachable ∧ crowded.Named "q_folded" ∧ crowded.uniqueName "q_folded" = "q_folded_2" ∧
      ¬ crowded.Named "q_folded_2" := by
  have reachable : crowded.Reachable := ⟨crowdedSession, rfl⟩
  have chosen : crowded.uniqueName "q_folded" = "q_folded_2" := by decide +kernel
  have named : crowded.Named "q_folded" := by
    by_contra unnamed
    have kept := (uniqueName_exact reachable "q_folded").2.1 unnamed
    exact absurd (kept.symm.trans chosen) (by decide)
  exact ⟨reachable, named, chosen, chosen ▸ (uniqueName_exact reachable "q_folded").1⟩

end Graph

end RangeFold
