import RangeFold.Attempt

/-!
# What steps keep

A step that fails still leaves a state behind, so a property that is to survive a
session must be kept by failed steps as well as by successful ones. The rules below
follow the ways in which steps are put together; a composed step keeps what each of
its parts keeps, whichever part fails.

The equations at the start give the outcome of a composed step once the outcome of
its first part is known. Where a step may fail, but only for a certain cause, it is
said to settle, and composed steps settle if their parts do.
-/

namespace RangeFold.Attempt

variable {σ τ β γ ε : Type}

/-- A check that fails ends the checks. The checks behind it are not made. -/
@[simp] theorem error_bind (failure : ε) (next : β → Except ε γ) :
    ((.error failure : Except ε β) >>= next) = .error failure := rfl

/-- A thrown failure ends the rest of the computation. -/
@[simp] theorem throw_bind (failure : ε) (next : β → Except ε γ) :
    ((throw failure : Except ε β) >>= next) = .error failure := rfl

/-- A value already there is handed to the rest of the computation. -/
@[simp] theorem ok_bind (value : β) (next : β → Except ε γ) :
    ((.ok value : Except ε β) >>= next) = next value := rfl

/-- Checks in a row succeed if each of them does. The value of the first is what the
second is made for. -/
theorem bind_eq_ok_iff {check : Except ε β} {next : β → Except ε γ} {value : γ} :
    (check >>= next) = .ok value ↔ ∃ middle, check = .ok middle ∧ next middle = .ok value := by
  cases check <;> simp

/-- Checks in a row fail with the first failure. A later failure is only seen if
everything before it has passed. -/
theorem bind_eq_error_iff {check : Except ε β} {next : β → Except ε γ} {failure : ε} :
    (check >>= next) = .error failure ↔
      check = .error failure ∨ ∃ middle, check = .ok middle ∧ next middle = .error failure := by
  cases check <;> simp

/-- What follows a check that answers nothing succeeds if the check passes and it
does. Guards at the head of a computation are taken off in this way. -/
theorem check_bind_eq_ok_iff {check : Except ε Unit} {next : Unit → Except ε γ} {value : γ} :
    (check >>= next) = .ok value ↔ check = .ok () ∧ next () = .ok value := by
  cases check <;> simp

/-- What follows a refusal succeeds if nothing is refused and it does. Guards that
are written as a condition are taken off in this way. -/
theorem refusal_eq_ok_iff {refused : Prop} [Decidable refused] {failure : ε} {next : Except ε β}
    {value : β} :
    (if refused then .error failure else next) = .ok value ↔ ¬ refused ∧ next = .ok value := by
  split <;> simp_all

/-- Mapping succeeds exactly when the computation does, with the mapped value. -/
theorem map_eq_ok_iff {outcome : Except ε β} {change : β → γ} {value : γ} :
    outcome.map change = .ok value ↔ ∃ found, outcome = .ok found ∧ value = change found := by
  cases outcome <;> simp [Except.map, eq_comm]

/-- Success read as a Boolean, for the places where a decision procedure needs it. -/
theorem exists_ok_iff {outcome : Except Failure β} :
    (∃ value, outcome = .ok value) ↔ outcome.isOk = true := by
  cases outcome <;> simp [Except.isOk, Except.toBool]

/-- Whether a step succeeds can be read off its answer. Where the step runs on a
given state this can be decided. -/
theorem succeeds_iff {step : Attempt σ Unit} {state : σ} :
    (∃ after, step state = (.ok (), after)) ↔ (step state).1.isOk = true := by
  rcases step state with ⟨_ | _, after⟩ <;> simp [Except.isOk, Except.toBool]

/-- Failure read as a Boolean. The state left behind may be any. -/
theorem fails_iff {step : Attempt σ β} {state : σ} :
    (∃ failure, step state = (.error failure, (step state).2)) ↔
      (step state).1.isOk = false := by
  rcases step state with ⟨_ | _, after⟩ <;> simp [Except.isOk, Except.toBool]

/-- What a step comes to can be put together from its answer and the state it
leaves. It joins a computed answer with a state that is only named. -/
theorem eq_of_answer {step : Attempt σ β} {state : σ} {outcome : Except Failure β}
    (answered : (step state).1 = outcome) : step state = (outcome, (step state).2) := by
  rw [← answered]

/-- After a successful first part the second one runs in the state it left. Runs are
followed forward with it. -/
theorem bind_of_ok {first : Attempt σ β} {next : β → Attempt σ γ} {state after : σ} {value : β}
    (succeeded : first state = (.ok value, after)) : (first >>= next) state = next value after := by
  rw [bind_apply, andThen, succeeded]

/-- A failed first part decides the outcome. The second part does not run. -/
theorem bind_of_error {first : Attempt σ β} {next : β → Attempt σ γ} {state after : σ}
    {failure : Failure} (failed : first state = (.error failure, after)) :
    (first >>= next) state = (.error failure, after) := by
  rw [bind_apply, andThen, failed]

/-- A handler is not asked after a success. The state is the one that the step left. -/
theorem orElse_of_ok {first : Attempt σ β} {handler : Failure → Attempt σ β} {state after : σ}
    {value : β} (succeeded : first state = (.ok value, after)) :
    first.orElse handler state = (.ok value, after) := by
  rw [orElse, succeeded]

/-- After a failure the handler runs in the state the failed part left. What was
edited before the failure is still there, so handlers have something to undo. -/
theorem orElse_of_error {first : Attempt σ β} {handler : Failure → Attempt σ β}
    {state after : σ} {failure : Failure} (failed : first state = (.error failure, after)) :
    first.orElse handler state = handler failure after := by
  rw [orElse, failed]

/-- Two parts succeed together if the first does and the second does after it. This
is how a success is taken apart into the successes of its parts. -/
theorem bind_succeeds_iff {first : Attempt σ β} {next : β → Attempt σ γ} {state after : σ}
    {value : γ} : (first >>= next) state = (.ok value, after) ↔
      ∃ between middle, first state = (.ok between, middle) ∧
        next between middle = (.ok value, after) := by
  constructor
  · intro ran
    rcases outcome : first state with ⟨failure | between, middle⟩
    · rw [bind_of_error outcome] at ran
      cases (Prod.mk.inj ran).1
    · rw [bind_of_ok outcome] at ran
      exact ⟨between, middle, rfl, ran⟩
  · rintro ⟨between, middle, succeeded, ran⟩
    rwa [bind_of_ok succeeded]

/-- A step with a handler succeeds by itself or through the handler. In the second
case the handler starts from where the step failed. -/
theorem orElse_succeeds_iff {first : Attempt σ β} {handler : Failure → Attempt σ β}
    {state after : σ} {value : β} : first.orElse handler state = (.ok value, after) ↔
      first state = (.ok value, after) ∨ ∃ failure middle,
        first state = (.error failure, middle) ∧ handler failure middle = (.ok value, after) := by
  constructor
  · intro ran
    rcases outcome : first state with ⟨failure | between, middle⟩
    · rw [orElse_of_error outcome] at ran
      exact .inr ⟨failure, middle, rfl, ran⟩
    · rw [orElse_of_ok outcome] at ran
      exact .inl ran
  · rintro (succeeded | ⟨failure, middle, failed, handled⟩)
    · rw [orElse_of_ok succeeded]
    · rwa [orElse_of_error failed]

/-- Reading hands the current state to the rest, which runs in that same state. -/
@[simp] theorem read_bind (next : σ → Attempt σ γ) (state : σ) :
    (read >>= next) state = next state state := rfl

/-- Answering hands the value to the rest, which runs in the same state. -/
@[simp] theorem answer_bind (value : β) (next : β → Attempt σ γ) (state : σ) :
    ((pure value : Attempt σ β) >>= next) state = next value state := rfl

/-- An update is followed by the rest in the changed state. -/
@[simp] theorem update_bind (change : σ → σ) (next : Unit → Attempt σ γ) (state : σ) :
    (update change >>= next) state = next () (change state) := rfl

/-- A failing step ends the run where it stands. -/
@[simp] theorem fail_bind (failure : Failure) (next : β → Attempt σ γ) (state : σ) :
    (fail failure >>= next) state = (.error failure, state) := rfl

/-- A check that passed hands its value to the rest and has changed nothing. -/
theorem lift_bind_of_ok {checked : Except Failure β} {value : β} (passed : checked = .ok value)
    (next : β → Attempt σ γ) (state : σ) : (lift checked >>= next) state = next value state := by
  rw [passed]
  rfl

/-- A check that was refused ends the run in the state it looked at. -/
theorem lift_bind_of_error {checked : Except Failure β} {failure : Failure}
    (refused : checked = .error failure) (next : β → Attempt σ γ) (state : σ) :
    (lift checked >>= next) state = (.error failure, state) := by
  rw [refused]
  rfl

/-- A loop over no items succeeds at once. -/
@[simp] theorem forEach_nil (step : γ → Attempt σ Unit) (state : σ) :
    forEach step [] state = (.ok (), state) := rfl

/-- A loop runs its first item and, if that succeeds, the rest from the state
reached. -/
theorem forEach_cons (step : γ → Attempt σ Unit) (item : γ) (rest : List γ) (state : σ) :
    forEach step (item :: rest) state = (step item >>= fun _ => forEach step rest) state := rfl

/-- The property survives the step, whether it succeeds or fails. -/
def Keeps (property : σ → Prop) (step : Attempt σ β) : Prop :=
  ∀ state, property state → property (step state).2

section Keeps

variable {property : σ → Prop}

/-- Answering keeps every property, as the state is not touched. -/
theorem keeps_answer (value : β) : Keeps property (pure value : Attempt σ β) :=
  fun _ holds => holds

/-- Failing keeps every property, as the state is not touched. -/
theorem keeps_fail (failure : Failure) : Keeps property (fail failure : Attempt σ β) :=
  fun _ holds => holds

/-- Reading keeps every property, as the state is not touched. -/
theorem keeps_read : Keeps property (read : Attempt σ σ) := fun _ holds => holds

/-- Checking keeps every property, whether the check passes or is refused. -/
theorem keeps_lift (checked : Except Failure β) : Keeps property (lift checked : Attempt σ β) :=
  fun _ holds => holds

/-- An update keeps the properties that its change of the state preserves. -/
theorem keeps_update {change : σ → σ} (kept : ∀ state, property state → property (change state)) :
    Keeps property (update change) := kept

/-- What holds after the first part, whether it succeeds or fails, and is kept by the
second one holds after both. -/
theorem holds_after_bind {first : Attempt σ β} {next : β → Attempt σ γ} {state : σ}
    (middle : property (first state).2) (keptNext : ∀ value, Keeps property (next value)) :
    property ((first >>= next) state).2 := by
  rcases outcome : first state with ⟨_ | value, after⟩ <;> rw [outcome] at middle
  · rw [bind_of_error outcome]
    exact middle
  · rw [bind_of_ok outcome]
    exact keptNext value after middle

/-- What follows a check may use that it passed. If it did not pass, the state is
the one that the property was known of. -/
theorem holds_after_lift {checked : Except Failure β} {next : β → Attempt σ γ} {state : σ}
    (holds : property state)
    (passed : ∀ value, checked = .ok value → property (next value state).2) :
    property ((lift checked >>= next) state).2 := by
  cases outcome : checked with
  | error failure => exact holds
  | ok value => exact passed value outcome

/-- A property holds after a recovery once it holds where the first step stopped and
the handlers keep it. The first step need not keep it everywhere. -/
theorem holds_after_orElse {first : Attempt σ β} {handler : Failure → Attempt σ β} {state : σ}
    (middle : property (first state).2)
    (keptHandler : ∀ failure, Keeps property (handler failure)) :
    property (first.orElse handler state).2 := by
  rcases outcome : first state with ⟨failure | _, after⟩ <;> rw [outcome] at middle
  · rw [orElse_of_error outcome]
    exact keptHandler failure after middle
  · rw [orElse_of_ok outcome]
    exact middle

/-- Both parts of a sequence keep the property, so the sequence does. A failure of
the first part is covered, as the property holds of the state it leaves. -/
theorem keeps_bind {first : Attempt σ β} {next : β → Attempt σ γ} (kept : Keeps property first)
    (keptNext : ∀ value, Keeps property (next value)) : Keeps property (first >>= next) :=
  fun state holds => holds_after_bind (kept state holds) keptNext

/-- A step that reads the state first may use what it read. Edits that look at the
graph before they decide are all of this form. -/
theorem keeps_read_bind {next : σ → Attempt σ γ}
    (kept : ∀ state, property state → property (next state state).2) :
    Keeps property (read >>= next) := kept

/-- A recovery keeps what its step and its handlers keep. -/
theorem keeps_orElse {first : Attempt σ β} {handler : Failure → Attempt σ β}
    (kept : Keeps property first) (keptHandler : ∀ failure, Keeps property (handler failure)) :
    Keeps property (first.orElse handler) :=
  fun state holds => holds_after_orElse (kept state holds) keptHandler

/-- A loop keeps what each of its turns keeps, also when a turn fails and the rest
is skipped. -/
theorem keeps_forEach {step : γ → Attempt σ Unit} (kept : ∀ item, Keeps property (step item))
    (items : List γ) : Keeps property (forEach step items) := by
  induction items with
  | nil => exact fun _ holds => holds
  | cons item rest inductionHypothesis =>
    exact keeps_bind (kept item) fun _ => inductionHypothesis

/-- A step on a part keeps what it keeps of the part, if putting the part back does not
touch anything else the property speaks of. -/
theorem keeps_within {part : τ → σ} {put : τ → σ → τ} {step : Attempt σ β}
    (restores : ∀ state inner, part (put state inner) = inner) (kept : Keeps property step) :
    Keeps (fun state => property (part state)) (within part put step) := by
  intro state holds
  show property (part (put state (step (part state)).2))
  rw [restores]
  exact kept _ holds

end Keeps

section Settles

/-- A step succeeds in a way that is said, or it breaks off and there is the cause for it that is
said. -/
inductive Settles (step : Attempt σ β) (state : σ) (well : β → σ → Prop) (cause : Prop) : Prop where
  | succeeds {value : β} {after : σ} (ran : step state = (.ok value, after))
      (holds : well value after) : Settles step state well cause
  | breaks {failure : Failure} {after : σ} (ran : step state = (.error failure, after))
      (why : cause) : Settles step state well cause

variable {step : Attempt σ β} {next : β → Attempt σ γ} {state : σ} {well : β → σ → Prop}
  {wellNext : γ → σ → Prop} {cause : Prop}

/-- Two parts settle together, for what the second one comes to in the state that the first one
leaves. A cause for either of them to break off has to be one for both. -/
theorem Settles.bind {first : Prop} (settles : Settles step state well first)
    (causes : first → cause)
    (rest : ∀ value after, well value after → Settles (next value) after wellNext cause) :
    Settles (step >>= next) state wellNext cause := by
  cases settles with
  | breaks ran why => exact .breaks (bind_of_error ran) (causes why)
  | succeeds ran holds =>
    cases rest _ _ holds with
    | succeeds ranNext holdsNext => exact .succeeds ((bind_of_ok ran).trans ranNext) holdsNext
    | breaks ranNext why => exact .breaks ((bind_of_ok ran).trans ranNext) why

/-- Without the cause a step that settles succeeds. The failure that it would settle
for needs the cause. -/
theorem Settles.of_no_cause (settles : Settles step state well cause) (none : ¬ cause) :
    ∃ value after, step state = (.ok value, after) ∧ well value after := by
  cases settles with
  | succeeds ran holds => exact ⟨_, _, ran, holds⟩
  | breaks _ why => exact absurd why none

/-- A step that settles and is known to succeed does so in the way that is said.
Both ways to fail are excluded by the success. -/
theorem Settles.of_success (settles : Settles step state well cause) {value : β} {after : σ}
    (succeeded : step state = (.ok value, after)) : well value after := by
  cases settles with
  | succeeds ran holds =>
    obtain ⟨same, rfl⟩ := Prod.mk.inj (ran.symm.trans succeeded)
    exact Except.ok.inj same ▸ holds
  | breaks ran _ => cases ran.symm.trans succeeded

end Settles

end RangeFold.Attempt
