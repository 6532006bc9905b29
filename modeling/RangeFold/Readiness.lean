/-!
# Listing by readiness

Places that wait for one another are listed so that each comes after all that it
waits for. A place is ready when nothing it waits for is left unlisted; of the ready
places the earliest one is listed next, by whatever order the caller prefers. Places
that wait for themselves, directly or through others, are never listed, nor is
anything that waits for them.

The order of a graph's nodes and the order of a pipeline's passes are both such
listings.
-/

namespace RangeFold

/-- How many supplies each place still waits for, and the ready places, earliest first. -/
structure Readiness where
  missing : List Int
  ready : List Nat

namespace Readiness

/-- Insert a place into an ordered list, before the first place it may precede. -/
def insertReady (earlier : Nat → Nat → Bool) (place : Nat) : List Nat → List Nat
  | [] => [place]
  | head :: rest =>
    if earlier place head then place :: head :: rest
    else head :: insertReady earlier place rest

/-- A place receives one supply; with the last one it becomes ready. -/
def supply (earlier : Nat → Nat → Bool) (state : Readiness) (place : Nat) : Readiness :=
  let left := state.missing.getD place 0 - 1
  { missing := state.missing.set place left
    ready := if left = 0 then insertReady earlier place state.ready else state.ready }

/-- List the earliest ready place, supply what it feeds, and continue, for a number of
steps. Each place becomes ready at most once, so there need be no more steps than
places. Answers with the listing and what was left waiting. -/
def list (earlier : Nat → Nat → Bool) (feeds : Nat → List Nat) :
    Nat → Readiness → List Nat × Readiness
  | 0, state => ([], state)
  | steps + 1, state =>
    match state.ready with
    | [] => ([], state)
    | place :: rest =>
      let supplied := (feeds place).foldl (supply earlier) { state with ready := rest }
      let (listed, final) := list earlier feeds steps supplied
      (place :: listed, final)

end Readiness

end RangeFold
