import Deobfuscation.Proofs.InternTables
import Mathlib.Data.List.Nodup

/-!
Passes over the indices of a pool. A pass changes one constant at a time and may add
others on the way. It only reads kinds of constants that it does not change, so what
becomes of a constant can be said in terms of the pools before and after the whole pass.
-/

namespace Deobfuscation

open Edit Pool

/-- The text at an index of the old pool, changed, is the text at an index of the new one. -/
def TextBecomes (change : String → String) (old new : Pool) (before after : UInt16) : Prop :=
  ∀ text, old.text before = .ok text → new.text after = .ok (change text)

theorem textBecomes_of_keeps {change : String → String} {first old new last : Pool}
    {before after : UInt16} (earlier : first.KeepsTexts old) (later : new.KeepsTexts last)
    (becomes : TextBecomes change old new before after) :
    TextBecomes change first last before after := by
  intro text read
  exact later.text (becomes text (earlier.text read))

/-- A way to change the constants of a pool one after another. What becomes of a constant depends
on kinds of constants that are kept. -/
structure Pass where
  kept : Constant → Bool
  Becomes : Pool → Pool → Constant → Constant → Prop
  becomes_kept : ∀ {old new constant result}, kept constant = true →
    (Becomes old new constant result ↔ result = constant)
  becomes_of_keeps : ∀ {first old new last constant result}, first.Keeps kept old →
    new.Keeps kept last → Becomes old new constant result → Becomes first last constant result

namespace Pass

variable {pass : Pass}

/-- The constants at the indices became what the pass makes of them, and no others changed. -/
def Covers (pass : Pass) (indices : List UInt16) (old new : Pool) : Prop :=
  ∀ index constant, old.get? index = some constant →
    ∃ result, new.get? index = some result ∧
      (index ∈ indices → pass.Becomes old new constant result) ∧
      (index ∉ indices → result = constant)

theorem Covers.keeps {indices : List UInt16} {old new : Pool}
    (covers : pass.Covers indices old new) : old.Keeps pass.kept new := by
  intro index constant kept found
  obtain ⟨result, stands, changed, same⟩ := covers index constant found
  by_cases member : index ∈ indices
  · exact (pass.becomes_kept kept).mp (changed member) ▸ stands
  · exact same member ▸ stands

theorem covers_nil (pass : Pass) (pool : Pool) : pass.Covers [] pool pool := by
  intro index constant found
  exact ⟨constant, found, nofun, fun _ => rfl⟩

theorem covers_cons {index : UInt16} {rest : List UInt16} {old middle new : Pool}
    (fresh : index ∉ rest) (head : pass.Covers [index] old middle)
    (tail : pass.Covers rest middle new) : pass.Covers (index :: rest) old new := by
  intro place constant found
  obtain ⟨between, stands, changed, same⟩ := head place constant found
  obtain ⟨result, last, laterChanged, laterSame⟩ := tail place between stands
  refine ⟨result, last, ?_, ?_⟩
  -- each index is changed once: by the first step or by the others
  · intro member
    rcases List.mem_cons.mp member with here | later
    · have result_eq := laterSame (here ▸ fresh)
      subst result_eq
      have becomes := changed (List.mem_singleton.mpr here)
      exact pass.becomes_of_keeps (keeps_refl _ _) tail.keeps becomes
    · have elsewhere : place ∉ [index] := by
        intro here
        exact fresh (List.mem_singleton.mp here ▸ later)
      have between_eq := same elsewhere
      subst between_eq
      exact pass.becomes_of_keeps head.keeps (keeps_refl _ _) (laterChanged later)
  · intro absent
    have elsewhere : place ∉ [index] := fun here =>
      absent (List.mem_cons.mpr (Or.inl (List.mem_singleton.mp here)))
    rw [laterSame fun later => absent (List.mem_cons_of_mem index later), same elsewhere]

theorem covers_extends {index : UInt16} {old grown : Pool} (extended : old.Extends grown)
    (becomes : ∀ constant, old.get? index = some constant →
      pass.Becomes old grown constant constant) : pass.Covers [index] old grown := by
  intro place constant found
  refine ⟨constant, extended place constant rfl found, ?_, fun _ => rfl⟩
  intro here
  rw [List.mem_singleton.mp here] at found
  exact becomes constant found

theorem covers_same {index : UInt16} {pool : Pool}
    (kept : ∀ constant, pool.get? index = some constant → pass.kept constant = true) :
    pass.Covers [index] pool pool :=
  covers_extends (extends_refl pool) fun constant found =>
    (pass.becomes_kept (kept constant found)).mpr rfl

theorem covers_replace {index : UInt16} {old grown : Pool} {constant result : Constant}
    (stands : old.get? index = some constant) (extended : old.Extends grown)
    (becomes : pass.Becomes old (grown.replace index result) constant result) :
    pass.Covers [index] old (grown.replace index result) := by
  intro place found present
  have there := extended place found rfl present
  rw [get?_replace]
  by_cases here : place = index
  · subst here
    rw [stands] at present
    cases present
    rw [there]
    exact ⟨result, by simp, fun _ => becomes, fun absent => absurd List.mem_cons_self absent⟩
  · rw [if_neg fun both => here both.1]
    exact ⟨found, there, fun member => absurd (List.mem_singleton.mp member) here, fun _ => rfl⟩

end Pass

def Pool.indicesBelow (stop : UInt16) : List UInt16 :=
  (List.range' 1 (stop.toNat - 1)).map UInt16.ofNat

theorem Pool.mem_indicesBelow {stop index : UInt16} :
    index ∈ indicesBelow stop ↔ 0 < index.toNat ∧ index.toNat < stop.toNat := by
  have small := stop.toNat_lt
  simp only [indicesBelow, List.mem_map, List.mem_range'_1]
  constructor
  · rintro ⟨number, ⟨low, high⟩, rfl⟩
    have value : (UInt16.ofNat number).toNat = number := by
      rw [UInt16.toNat_ofNat']
      exact Nat.mod_eq_of_lt (by omega)
    omega
  · rintro ⟨low, high⟩
    exact ⟨index.toNat, by omega, by simp⟩

theorem Pool.mem_indicesBelow_nextIndex {pool : Pool} (fits : pool.Fits) {index : UInt16}
    {constant : Constant} (found : pool.get? index = some constant) :
    index ∈ indicesBelow pool.nextIndex := by
  obtain ⟨positive, slot⟩ := get?_eq_some_iff.mp found
  have inside := (Array.getElem?_eq_some_iff.mp slot).1
  rw [mem_indicesBelow, toNat_nextIndex fits]
  exact ⟨positive, by omega⟩

theorem Pool.nodup_indicesBelow (stop : UInt16) : (indicesBelow stop).Nodup := by
  have small := stop.toNat_lt
  apply List.Nodup.map_on _ List.nodup_range'
  intro first firstInside second secondInside same
  have firstSmall := (List.mem_range'_1.mp firstInside).2
  have secondSmall := (List.mem_range'_1.mp secondInside).2
  have equal := congrArg UInt16.toNat same
  rw [UInt16.toNat_ofNat', UInt16.toNat_ofNat', Nat.mod_eq_of_lt (by omega),
    Nat.mod_eq_of_lt (by omega)] at equal
  exact equal

namespace Edit

/-- What each step keeps, a whole pass keeps, and it makes of each constant what a step makes. -/
theorem forIndices_covers {pass : Pass} {Invariant : Editing → Prop} {step : UInt16 → Edit Unit}
    (each : ∀ index before after, Invariant before → Runs (step index) before () after →
      Invariant after ∧ pass.Covers [index] before.pool after.pool)
    {stop : UInt16} {before after : Editing} (start : Invariant before)
    (run : Runs (forIndices stop step) before () after) :
    Invariant after ∧ pass.Covers (indicesBelow stop) before.pool after.pool := by
  -- for any list of indices and any state on the way, so that the induction goes through
  have all : ∀ indices : List UInt16, indices.Nodup → ∀ state, Invariant state →
      Runs (forM indices step) state () after →
      Invariant after ∧ pass.Covers indices state.pool after.pool := by
    intro indices
    induction indices with
    | nil =>
        intro _ state valid run
        obtain ⟨-, rfl⟩ := runs_pure.mp run
        exact ⟨valid, pass.covers_nil _⟩
    | cons index rest ih =>
        intro distinct state valid run
        obtain ⟨fresh, tailDistinct⟩ := List.nodup_cons.mp distinct
        rw [List.forM_cons, runs_bind] at run
        obtain ⟨_, middle, first, others⟩ := run
        obtain ⟨middleValid, head⟩ := each index state middle valid first
        obtain ⟨lastValid, tail⟩ := ih tailDistinct middle middleValid others
        exact ⟨lastValid, Pass.covers_cons fresh head tail⟩
  apply all _ (nodup_indicesBelow stop) before start
  rw [indicesBelow, List.forM_map]
  exact run

/-- A pass takes the indices in order, so an invariant can say how far it came. -/
theorem forIndices_upTo {Invariant : Nat → Editing → Prop} {step : UInt16 → Edit Unit}
    {stop : UInt16} {before after : Editing}
    (each : ∀ index before after, 0 < index.toNat → index.toNat < stop.toNat →
      Invariant index.toNat before → Runs (step index) before () after →
      Invariant (index.toNat + 1) after)
    (positive : 0 < stop.toNat) (start : Invariant 1 before)
    (run : Runs (forIndices stop step) before () after) : Invariant stop.toNat after := by
  have small := stop.toNat_lt
  have onwards : ∀ count first state, 0 < first → first + count = stop.toNat →
      Invariant first state →
      Runs ((List.range' first count).forM fun index => step (UInt16.ofNat index)) state ()
        after → Invariant stop.toNat after := by
    intro count
    induction count with
    | zero =>
        intro first state _ reached valid run
        obtain ⟨-, rfl⟩ := runs_pure.mp run
        exact reached ▸ valid
    | succ count ih =>
        intro first state above reached valid run
        rw [List.range'_succ, List.forM_eq_forM, List.forM_cons, runs_bind] at run
        obtain ⟨_, middle, now, later⟩ := run
        have value : (UInt16.ofNat first).toNat = first := by
          rw [UInt16.toNat_ofNat']
          exact Nat.mod_eq_of_lt (by omega)
        have next := each (UInt16.ofNat first) state middle (by omega) (by omega)
          (value.symm ▸ valid) now
        rw [value] at next
        exact ih (first + 1) middle (by omega) (by omega) next later
  exact onwards (stop.toNat - 1) 1 before Nat.one_pos (by omega) start run

end Edit

end Deobfuscation
