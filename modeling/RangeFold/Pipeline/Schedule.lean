import RangeFold.Failure
import RangeFold.Readiness

/-!
# Schedules

The order in which the passes of a pipeline run. A pass waits for every pass it is
hinted to run after, as far as that one takes part; of the passes that wait for
nothing, the one with the lowest priority runs next, and of equal ones the one added
first. Where several passes carry one name, a hint at the name means the last of
them.

Hints in a circle leave passes waiting forever; the pipeline is then refused and the
waiting passes are named.
-/

namespace RangeFold

/-- What the schedule knows of a pass. -/
structure ScheduleEntry where
  id : String
  priority : Int
  runsAfter : List String
deriving DecidableEq

namespace Schedule

/-- The place that a hint means: the last entry of the name. -/
def hintedPlace (entries : List ScheduleEntry) (id : String) : Option Nat :=
  ((entries.zipIdx.filter fun (entry, _) => entry.id == id).getLast?).map Prod.snd

/-- The places that an entry waits for, one for each hint that names an entry. -/
def prerequisites (entries : List ScheduleEntry) (entry : ScheduleEntry) : List Nat :=
  entry.runsAfter.filterMap (hintedPlace entries)

/-- The places that wait for a place, once for each of their hints at it. -/
def successors (entries : List ScheduleEntry) (place : Nat) : List Nat :=
  entries.zipIdx.flatMap fun (entry, own) =>
    ((prerequisites entries entry).filter (· = place)).map fun _ => own

/-- The priority of a place. -/
def priorityAt (entries : List ScheduleEntry) (place : Nat) : Int :=
  match entries[place]? with
  | some entry => entry.priority
  | none => 0

/-- By priority and then by place. -/
def earlier (entries : List ScheduleEntry) (left right : Nat) : Bool :=
  decide (priorityAt entries left < priorityAt entries right) ||
    (decide (priorityAt entries left = priorityAt entries right) && decide (left ≤ right))

/-- At the start the entries without effective hints are ready. -/
def initial (entries : List ScheduleEntry) : Readiness where
  missing := entries.map fun entry => ((prerequisites entries entry).length : Int)
  ready :=
    ((entries.zipIdx.filter fun (entry, _) => (prerequisites entries entry).isEmpty).map
      Prod.snd).foldr (Readiness.insertReady (earlier entries)) []

/-- The places in running order, or the names that wait in circles. -/
def order (entries : List ScheduleEntry) : Except Failure (List Nat) :=
  let (listed, final) := Readiness.list (earlier entries) (successors entries) entries.length
    (initial entries)
  if listed.length = entries.length then .ok listed
  else
    .error (.orderingCycle
      (((entries.zip final.missing).filter fun (_, left) => decide (0 < left)).map
        fun (entry, _) => entry.id))

end Schedule

end RangeFold
