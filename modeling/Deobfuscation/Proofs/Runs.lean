import Deobfuscation.Notice

/-!
Runs of work that can fail, without and with a state. A run that ends well is taken apart
step by step: each lemma says what it means that one kind of step ends well.
-/

namespace Deobfuscation

variable {State Item Other : Type}

theorem bind_eq_ok {outcome : Except Failure Item}
    {next : Item → Except Failure Other} {result : Other} :
    (outcome >>= next) = .ok result ↔ ∃ item, outcome = .ok item ∧ next item = .ok result := by
  cases outcome with
  | ok item =>
      constructor
      · intro later
        exact ⟨item, rfl, later⟩
      · rintro ⟨_, same, later⟩
        cases same
        exact later
  | error failure => exact ⟨nofun, fun ⟨_, same, _⟩ => nomatch same⟩

theorem map_eq_ok {Fault : Type} {outcome : Except Fault Item} {change : Item → Other}
    {result : Other} :
    outcome.map change = .ok result ↔ ∃ item, outcome = .ok item ∧ change item = result := by
  cases outcome with
  | ok item => simp [Except.map]
  | error fault => exact ⟨nofun, nofun⟩

theorem inContext_eq_ok {context : Context} {outcome : Except Failure Item} {item : Item} :
    Failure.inContext context outcome = .ok item ↔ outcome = .ok item := by
  cases outcome with
  | ok found => rfl
  | error failure => exact ⟨nofun, nofun⟩

theorem eq_ok_of_isOk {outcome : Except Failure Item} (default : Item)
    (succeeds : outcome.isOk = true) : outcome = .ok (outcome.toOption.getD default) := by
  cases outcome with
  | ok item => rfl
  | error failure => cases succeeds

abbrev Work (State : Type) := ExceptT Failure (StateM State)

/-- The work ends well: it gives an item and leaves a state behind. -/
def Runs (work : Work State Item) (before : State) (item : Item) (after : State) : Prop :=
  work before = (.ok item, after)

section Steps

variable {before after : State}

theorem Runs.unique {work : Work State Item} {item other : Item} {last : State}
    (run : Runs work before item after) (again : Runs work before other last) :
    other = item ∧ last = after := by
  rw [Runs, run] at again
  cases again
  exact ⟨rfl, rfl⟩

@[simp] theorem runs_pure {item result : Item} :
    Runs (pure item) before result after ↔ item = result ∧ after = before := by
  change ((Except.ok item, before) : Except Failure Item × State) = _ ↔ _
  simp [eq_comm]

theorem bind_apply (work : Work State Item) (next : Item → Work State Other) (before : State) :
    (work >>= next) before =
      match work before with
      | (.ok item, middle) => next item middle
      | (.error failure, middle) => (.error failure, middle) := by
  change (ExceptT.bindCont next (work before).1) (work before).2 = _
  rcases work before with ⟨outcome, middle⟩
  cases outcome <;> rfl

@[simp] theorem runs_bind {work : Work State Item} {next : Item → Work State Other}
    {result : Other} :
    Runs (work >>= next) before result after ↔
      ∃ item middle, Runs work before item middle ∧ Runs (next item) middle result after := by
  unfold Runs
  rw [bind_apply]
  rcases work before with ⟨outcome, middle⟩
  cases outcome with
  | ok item =>
      constructor
      · intro run
        exact ⟨item, middle, rfl, run⟩
      · rintro ⟨item, middle, same, run⟩
        cases same
        exact run
  | error failure =>
      constructor
      · intro run
        cases run
      · rintro ⟨item, middle, same, -⟩
        cases same

@[simp] theorem runs_adapt {change : Failure → Failure} {work : Work State Item} {item : Item} :
    Runs (work.adapt change) before item after ↔ Runs work before item after := by
  have step : work.adapt change before =
      ((work before).1.mapError change, (work before).2) := rfl
  unfold Runs
  rw [step]
  rcases work before with ⟨outcome, middle⟩
  cases outcome with
  | ok item => exact Iff.rfl
  | error failure => exact ⟨nofun, nofun⟩

@[simp] theorem runs_lift {outcome : Except Failure Item} {item : Item} :
    Runs (liftM outcome : Work State Item) before item after ↔
      outcome = .ok item ∧ after = before := by
  change ((outcome, before) : Except Failure Item × State) = _ ↔ _
  simp [eq_comm]

@[simp] theorem runs_get {state : State} :
    Runs get before state after ↔ state = before ∧ after = before := by
  change ((Except.ok before, before) : Except Failure State × State) = _ ↔ _
  simp [eq_comm]

@[simp] theorem runs_set {state : State} {item : PUnit} :
    Runs (set state) before item after ↔ after = state := by
  change ((Except.ok (), state) : Except Failure Unit × State) = _ ↔ _
  simp [eq_comm]

@[simp] theorem runs_modify {change : State → State} {item : PUnit} :
    Runs (modify change) before item after ↔ after = change before := by
  change ((Except.ok (), change before) : Except Failure Unit × State) = _ ↔ _
  simp [eq_comm]

@[simp] theorem runs_throw {failure : Failure} {item : Item} :
    ¬ Runs (throw failure) before item after := nofun

/-- What holds at the start and is kept by each step holds at the end. -/
theorem runs_foldlM (Good : Other → Prop) {step : Other → Item → Work State Other}
    (each : ∀ held item before next after, Good held → Runs (step held item) before next after →
      Good next)
    {items : List Item} {start result : Other} (begun : Good start)
    (run : Runs (items.foldlM step start) before result after) : Good result := by
  induction items generalizing start before with
  | nil =>
      obtain ⟨rfl, -⟩ := runs_pure.mp run
      exact begun
  | cons item rest ih =>
      rw [List.foldlM_cons, runs_bind] at run
      obtain ⟨next, middle, first, others⟩ := run
      exact ih (each start item before next middle begun first) others

end Steps

/-- The work fails, and a state is left behind all the same. -/
def Fails (work : Work State Item) (before : State) (failure : Failure) (after : State) : Prop :=
  work before = (.error failure, after)

section Failing

variable {before after : State} {failure : Failure}

@[simp] theorem fails_bind {work : Work State Item} {next : Item → Work State Other} :
    Fails (work >>= next) before failure after ↔ Fails work before failure after ∨
      ∃ item middle, Runs work before item middle ∧ Fails (next item) middle failure after := by
  unfold Fails Runs
  rw [bind_apply]
  rcases work before with ⟨outcome, middle⟩
  cases outcome with
  | ok item =>
      constructor
      · intro failed
        exact Or.inr ⟨item, middle, rfl, failed⟩
      · rintro (same | ⟨item, middle, same, failed⟩)
        · cases same
        · cases same
          exact failed
  | error inner =>
      constructor
      · intro failed
        cases failed
        exact Or.inl rfl
      · rintro (same | ⟨item, middle, same, -⟩)
        · cases same
          rfl
        · cases same

@[simp] theorem fails_adapt {change : Failure → Failure} {work : Work State Item} :
    Fails (work.adapt change) before failure after ↔
      ∃ inner, Fails work before inner after ∧ change inner = failure := by
  have step : work.adapt change before =
      ((work before).1.mapError change, (work before).2) := rfl
  unfold Fails
  rw [step]
  rcases work before with ⟨outcome, middle⟩
  cases outcome with
  | ok item => exact ⟨nofun, nofun⟩
  | error inner =>
      constructor
      · intro failed
        cases failed
        exact ⟨inner, rfl, rfl⟩
      · rintro ⟨_, same, rfl⟩
        cases same
        rfl

@[simp] theorem fails_throw {thrown : Failure} :
    Fails (throw thrown : Work State Item) before failure after ↔
      thrown = failure ∧ after = before := by
  change ((Except.error thrown, before) : Except Failure Item × State) = _ ↔ _
  simp [eq_comm]

@[simp] theorem not_fails_pure {item : Item} :
    ¬ Fails (pure item : Work State Item) before failure after := nofun

@[simp] theorem not_fails_get : ¬ Fails (get : Work State State) before failure after := nofun

@[simp] theorem not_fails_set {state : State} :
    ¬ Fails (set state : Work State PUnit) before failure after := nofun

@[simp] theorem not_fails_modify {change : State → State} :
    ¬ Fails (modify change : Work State PUnit) before failure after := nofun

end Failing

end Deobfuscation
