import Deobfuscation.Proofs.InternTables
import Deobfuscation.Proofs.PoolPasses

/-!
Edits that fail only for lack of room. A constant is refused once the pool has no index left, and
looking up and adding texts and pairs has no other way to fail. What an edit reads is not looked
at here: a step that is known to end well leaves it to the next one to fail.
-/

namespace Deobfuscation

open Edit Pool

/-- A constant could not be added because the pool has no index left. -/
def Failure.IsFull (failure : Failure) : Prop :=
  ∃ constant, failure.cause = .overflow ⟨constant, 65535⟩

theorem Pool.push_eq_error {pool : Pool} {constant : Constant} {refused : Overflow}
    (fits : pool.Fits) (narrow : constant.isWide = false)
    (full : pool.push constant = .error refused) : refused = ⟨constant, 65535⟩ := by
  have one : constant.slots = 1 := if_neg (by simp [narrow])
  rw [push_eq fits, one] at full
  split at full
  · rename_i large
    cases full
    have next := toNat_nextIndex fits
    unfold Fits at fits
    have last : pool.nextIndex = 65535 := UInt16.toNat_inj.mp (by
      rw [show (65535 : UInt16).toNat = 65535 from rfl]
      omega)
    rw [last]
  · cases full

namespace Edit

/-- If the edit fails on this state, the pool is full. -/
def OnlyFull {Item : Type} (edit : Edit Item) (before : Editing) : Prop :=
  ∀ failure after, edit before = (.error failure, after) → failure.IsFull

section Failing

variable {Item Other : Type} {before middle after : Editing}

theorem onlyFull_of_runs {edit : Edit Item} {item : Item} (run : Runs edit before item after) :
    OnlyFull edit before := by
  intro failure last failed
  rw [Runs, failed] at run
  cases run

theorem OnlyFull.bind {edit : Edit Item} {next : Item → Edit Other}
    (first : OnlyFull edit before)
    (others : ∀ item middle, Runs edit before item middle → OnlyFull (next item) middle) :
    OnlyFull (edit >>= next) before := by
  intro failure last failed
  rcases fails_bind.mp failed with refused | ⟨item, middle, run, later⟩
  · exact first failure last refused
  · exact others item middle run failure last later

/-- What comes first ends well, so only what follows can fail. -/
theorem onlyFull_after {edit : Edit Item} {next : Item → Edit Other} {item : Item}
    (run : Runs edit before item middle) (rest : OnlyFull (next item) middle) :
    OnlyFull (edit >>= next) before := by
  apply (onlyFull_of_runs run).bind
  intro other last otherRun
  obtain ⟨rfl, rfl⟩ := run.unique otherRun
  exact rest

theorem OnlyFull.inContext {edit : Edit Item} (only : OnlyFull edit before) (context : Context) :
    OnlyFull (inContext context edit) before := by
  intro failure last failed
  obtain ⟨inner, innerFailed, rfl⟩ := fails_adapt.mp failed
  -- a context is put around the failure, and its cause stays
  exact only inner last innerFailed

theorem onlyFull_pure (item : Item) : OnlyFull (pure item) before :=
  onlyFull_of_runs (runs_pure.mpr ⟨rfl, rfl⟩)

theorem onlyFull_modify {change : Editing → Editing} {next : Unit → Edit Other}
    (rest : OnlyFull (next ()) (change before)) : OnlyFull (modify change >>= next) before :=
  onlyFull_after (runs_modify.mpr rfl) rest

theorem onlyFull_replace (index : UInt16) (constant : Constant) :
    OnlyFull (replace index constant) before := by
  have run : Runs (replace index constant) before () _ := runs_replace.mpr rfl
  exact onlyFull_of_runs run

theorem push_onlyFull {constant : Constant} (fits : before.pool.Fits)
    (narrow : constant.isWide = false) : OnlyFull (push constant) before := by
  apply onlyFull_after (runs_get.mpr ⟨rfl, rfl⟩)
  split
  · rename_i refused full
    intro failure last failed
    cases failed
    exact ⟨constant, by rw [push_eq_error fits narrow full]⟩
  · exact onlyFull_of_runs (runs_bind.mpr ⟨(), _, runs_set.mpr rfl, runs_pure.mpr ⟨rfl, rfl⟩⟩)

theorem internText_onlyFull (text : String) (fits : before.pool.Fits) :
    OnlyFull (internText text) before := by
  apply onlyFull_after (runs_get.mpr ⟨rfl, rfl⟩)
  split
  · exact onlyFull_pure _
  · apply ((push_onlyFull fits rfl).inContext _).bind
    intro index middle _
    exact onlyFull_modify (onlyFull_pure index)

theorem retarget_onlyFull (index : UInt16) (old new : String) (fits : before.pool.Fits) :
    OnlyFull (retarget index old new) before := by
  unfold retarget
  split
  · exact onlyFull_pure _
  · exact internText_onlyFull new fits

theorem internPair_onlyFull (name descriptor : String) (sound : before.Sound) :
    OnlyFull (internPair name descriptor) before := by
  apply onlyFull_after (runs_get.mpr ⟨rfl, rfl⟩)
  split
  · exact onlyFull_pure _
  · apply (internText_onlyFull name sound.fits).bind
    intro nameIndex named nameRun
    have namedSound := (internText_sound sound nameRun).1
    apply (internText_onlyFull descriptor namedSound.fits).bind
    intro descriptorIndex described descriptorRun
    have describedSound := (internText_sound namedSound descriptorRun).1
    apply ((push_onlyFull describedSound.fits rfl).inContext _).bind
    intro index last _
    exact onlyFull_modify (onlyFull_pure index)

/-- If no step of a pass fails otherwise, neither does the pass. The invariant says how far it
came. -/
theorem forIndices_onlyFull (Invariant : Nat → Editing → Prop) {step : UInt16 → Edit Unit}
    {stop : UInt16}
    (each : ∀ index before, index.toNat < stop.toNat → Invariant index.toNat before →
      OnlyFull (step index) before)
    (kept : ∀ index before after, index.toNat < stop.toNat → Invariant index.toNat before →
      Runs (step index) before () after → Invariant (index.toNat + 1) after)
    (start : Invariant 1 before) : OnlyFull (forIndices stop step) before := by
  have small := stop.toNat_lt
  -- from any index on, by the number of indices that are left
  have onwards : ∀ count first state, first + count ≤ stop.toNat → Invariant first state →
      OnlyFull ((List.range' first count).forM fun index => step (UInt16.ofNat index)) state := by
    intro count
    induction count with
    | zero =>
        intro first state _ _
        exact onlyFull_pure _
    | succ count ih =>
        intro first state bound valid
        rw [List.range'_succ, List.forM_eq_forM, List.forM_cons]
        have value : (UInt16.ofNat first).toNat = first := by
          rw [UInt16.toNat_ofNat']
          exact Nat.mod_eq_of_lt (by omega)
        have inside : (UInt16.ofNat first).toNat < stop.toNat := by omega
        have here : Invariant (UInt16.ofNat first).toNat state := value.symm ▸ valid
        apply (each _ state inside here).bind
        intro _ middle now
        have next := kept _ state middle inside here now
        rw [value] at next
        exact ih (first + 1) middle (by omega) next
  by_cases none : stop.toNat = 0
  · rw [forIndices, none]
    exact onlyFull_pure _
  · exact onwards (stop.toNat - 1) 1 before (by omega) start

/-- A pass, and what follows it. -/
theorem forIndices_bind_onlyFull (Invariant : Nat → Editing → Prop) {step : UInt16 → Edit Unit}
    {stop : UInt16} {next : Unit → Edit Other}
    (each : ∀ index before, index.toNat < stop.toNat → Invariant index.toNat before →
      OnlyFull (step index) before)
    (kept : ∀ index before after, index.toNat < stop.toNat → Invariant index.toNat before →
      Runs (step index) before () after → Invariant (index.toNat + 1) after)
    (positive : 0 < stop.toNat) (start : Invariant 1 before)
    (rest : ∀ after, Invariant stop.toNat after → OnlyFull (next ()) after) :
    OnlyFull (forIndices stop step >>= next) before := by
  apply (forIndices_onlyFull Invariant each kept start).bind
  intro _ after run
  exact rest after (forIndices_upTo (fun index before after _ => kept index before after) positive
    start run)

end Failing

end Edit

end Deobfuscation
