import RangeFold.Failure

/-!
# Attempts

An attempt is a step on a state that may fail and that leaves a state either way:
what was done before the failure stays done. Whether a failed step has in fact
left the state as it was is therefore a statement about the step, not a property
of the type.
-/

namespace RangeFold

/-- A step on a state of type `σ` that answers with a `β` or fails. -/
def Attempt (σ β : Type) := σ → Except Failure β × σ

namespace Attempt

variable {σ τ β γ : Type}

/-- Answer without touching the state. -/
def answer (value : β) : Attempt σ β := fun state => (.ok value, state)

/-- Fail without touching the state. -/
def fail (failure : Failure) : Attempt σ β := fun state => (.error failure, state)

/-- Continue with the answer of a first step; its failure ends both. -/
def andThen (first : Attempt σ β) (next : β → Attempt σ γ) : Attempt σ γ := fun state =>
  match first state with
  | (.ok value, after) => next value after
  | (.error failure, after) => (.error failure, after)

instance : Monad (Attempt σ) where
  pure := answer
  bind := andThen

/-- Go on from a failed step, in the state it left. -/
def orElse (first : Attempt σ β) (handler : Failure → Attempt σ β) : Attempt σ β := fun state =>
  match first state with
  | (.ok value, after) => (.ok value, after)
  | (.error failure, after) => handler failure after

/-- Read the state. -/
def read : Attempt σ σ := fun state => (.ok state, state)

/-- Replace the state by a function of it. -/
def update (change : σ → σ) : Attempt σ Unit := fun state => (.ok (), change state)

/-- A check that does not depend on the state. -/
def lift (checked : Except Failure β) : Attempt σ β := fun state => (checked, state)

/-- Run a step on a part of a larger state. -/
def within (part : τ → σ) (put : τ → σ → τ) (step : Attempt σ β) : Attempt τ β := fun state =>
  match step (part state) with
  | (outcome, after) => (outcome, put state after)

/-- Run a step for each item in turn; the first failure ends the rest. -/
def forEach (step : γ → Attempt σ Unit) : List γ → Attempt σ Unit
  | [] => answer ()
  | item :: rest => (step item).andThen fun _ => forEach step rest

/-- Answering a value leaves the state. -/
@[simp] theorem pure_apply (value : β) (state : σ) :
    (pure value : Attempt σ β) state = (.ok value, state) := rfl

/-- Sequencing is the step and what follows it, read at a state. -/
theorem bind_apply (first : Attempt σ β) (next : β → Attempt σ γ) (state : σ) :
    (first >>= next) state = first.andThen next state := rfl

/-- Failing leaves the state. -/
@[simp] theorem fail_apply (failure : Failure) (state : σ) :
    (fail failure : Attempt σ β) state = (.error failure, state) := rfl

/-- Reading answers the state and leaves it. -/
@[simp] theorem read_apply (state : σ) : (read : Attempt σ σ) state = (.ok state, state) := rfl

/-- An update answers nothing and changes the state. -/
@[simp] theorem update_apply (change : σ → σ) (state : σ) :
    update change state = (.ok (), change state) := rfl

/-- A check is answered as it is and leaves the state. -/
@[simp] theorem lift_apply (checked : Except Failure β) (state : σ) :
    lift checked state = (checked, state) := rfl

end Attempt

end RangeFold
