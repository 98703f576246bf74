import Deobfuscation.Proofs.ConstantRenaming
import Deobfuscation.Proofs.SharedTexts

/-!
Where names with types are filed while their descriptors change. At first the last of equal pairs
is filed. A pair that changes is filed under its new texts, unless these are taken; it does not
matter that the index which took them may be about to change as well. So after the pass a pair is
found exactly if one of the indices that got it has none behind it that had it before.
-/

namespace Deobfuscation

open Edit Pool

namespace Interner

theorem get?_moved_of_ne {old new : String} (changed : old ≠ new) (interner : Interner)
    (index : UInt16) (name : String) (key : String × String) :
    (interner.moved index name old new).pairs.get? key =
      if key = (name, new) then some ((interner.pairs.get? key).getD index)
      else if key = (name, old) ∧ interner.pairs.get? key = some index then none
      else interner.pairs.get? key := by
  have apart : (name, old) ≠ (name, new) := fun same => changed (Prod.mk.inj same).2
  -- what is left once the old pair is taken out
  have left : ∀ wanted, (if interner.pairs.get? (name, old) = some index then
      interner.pairs.forget (name, old) else interner.pairs).get? wanted =
      if wanted = (name, old) ∧ interner.pairs.get? wanted = some index then none
      else interner.pairs.get? wanted := by
    intro wanted
    by_cases same : wanted = (name, old)
    · subst same
      split <;> rename_i here <;> simp [Bindings.get?_forget, here]
    · have other : ¬ (name, old) = wanted := fun equal => same equal.symm
      split <;> simp [Bindings.get?_forget, same, other]
  simp only [moved]
  generalize (if interner.pairs.get? (name, old) = some index then
    interner.pairs.forget (name, old) else interner.pairs) = kept at left ⊢
  have target : kept.get? (name, new) = interner.pairs.get? (name, new) := by
    rw [left, if_neg fun both => apart both.1.symm]
  rw [target]
  cases found : interner.pairs.get? (name, new) with
  | none =>
      rw [Option.isSome_none, if_neg Bool.false_ne_true, Bindings.get?_bind]
      by_cases same : key = (name, new)
      · subst same
        rw [if_pos rfl, if_pos rfl, found]
        rfl
      · rw [if_neg fun equal => same equal.symm, if_neg same, left]
  | some place =>
      rw [Option.isSome_some, if_pos rfl]
      by_cases same : key = (name, new)
      · subst same
        rw [if_pos rfl, target, found]
        rfl
      · rw [if_neg same, left]

theorem pairs_descend {pool : Pool} (fits : pool.Fits) :
    (ofPool pool).pairs.newest.Pairwise fun first second => second.2 < first.2 := by
  rw [ofPool_eq, List.pairwise_reverse]
  refine (entries_ascend fits).filterMap _ ?_
  intro first second ascend entry filed later laterFiled
  rw [(filedPair_eq_some_iff.mp filed).1, (filedPair_eq_some_iff.mp laterFiled).1]
  exact ascend

end Interner

theorem Table.le_of_find {Key : Type} [DecidableEq Key] {entries : List (Key × UInt16)} {key : Key}
    {last other : UInt16} (descend : entries.Pairwise fun first second => second.2 < first.2)
    (found : find key entries = some last) (member : (key, other) ∈ entries) : other ≤ last := by
  induction entries with
  | nil => cases member
  | cons entry rest ih =>
      obtain ⟨before, restDescend⟩ := List.pairwise_cons.mp descend
      unfold find at found
      split at found
      · cases found
        rcases List.mem_cons.mp member with rfl | later
        · exact UInt16.le_refl _
        · exact UInt16.le_of_lt (before _ later)
      · rename_i different
        rcases List.mem_cons.mp member with rfl | later
        · exact absurd rfl different
        · exact ih restDescend found later

namespace Renamer

section Filing

def NoneBehind (known : Bindings UInt16 (String × String)) (pair : String × String)
    (index : UInt16) : Prop :=
  ∀ other, known.get? other = some pair → other ≤ index

/-- The texts of a known pair when descriptors have changed at all indices before `next`. -/
def pairAt (renamer : Renamer) (known : Bindings UInt16 (String × String)) (next : Nat)
    (index : UInt16) : Option (String × String) :=
  (known.get? index).map fun pair =>
    if index.toNat < next then (pair.1, renamer.signature pair.2) else pair

/-- Pairs are filed at indices that have them, and behind all that had them at first. Whatever
pair stands at such an index is filed. -/
structure Filing (renamer : Renamer) (known : Bindings UInt16 (String × String)) (next : Nat)
    (pairs : Bindings (String × String) UInt16) : Prop where
  stands : ∀ pair index, pairs.get? pair = some index →
    renamer.pairAt known next index = some pair
  behind : ∀ pair index, pairs.get? pair = some index → NoneBehind known pair index
  complete : ∀ pair index, renamer.pairAt known next index = some pair →
    NoneBehind known pair index → ∃ place, pairs.get? pair = some place

variable {renamer : Renamer} {known : Bindings UInt16 (String × String)}

theorem exists_noneBehind {pair : String × String} (first : UInt16)
    (noted : known.get? first = some pair) :
    ∃ last, first ≤ last ∧ known.get? last = some pair ∧ NoneBehind known pair last := by
  have bound := first.toNat_lt
  -- as long as there is one behind, go on from that
  induction room : 65536 - first.toNat using Nat.strongRecOn generalizing first with
  | ind left ih =>
      by_cases behind : NoneBehind known pair first
      · exact ⟨first, UInt16.le_refl _, noted, behind⟩
      · simp only [NoneBehind, not_forall] at behind
        obtain ⟨other, otherNoted, larger⟩ := behind
        rw [UInt16.le_iff_toNat_le, Nat.not_le] at larger
        have otherBound := other.toNat_lt
        obtain ⟨last, above, stands, none⟩ :=
          ih (65536 - other.toNat) (by omega) other otherNoted otherBound rfl
        refine ⟨last, ?_, stands, none⟩
        rw [UInt16.le_iff_toNat_le] at above ⊢
        omega

theorem pairAt_succ (index place : UInt16) :
    renamer.pairAt known (index.toNat + 1) place =
      if place = index then (known.get? index).map fun pair => (pair.1, renamer.signature pair.2)
      else renamer.pairAt known index.toNat place := by
  unfold pairAt
  by_cases same : place = index
  · subst same
    simp
  · have apart : place.toNat ≠ index.toNat := fun equal => same (UInt16.toNat_inj.mp equal)
    have sameSide : place.toNat < index.toNat + 1 ↔ place.toNat < index.toNat := by omega
    simp only [if_neg same, sameSide]

theorem pairAt_of_le {next : Nat} {index : UInt16} (ahead : next ≤ index.toNat) :
    renamer.pairAt known next index = known.get? index := by
  have notYet : ¬ index.toNat < next := by omega
  simp [pairAt, notYet]

theorem pairAt_one {pool : Pool} (fits : pool.Fits) (index : UInt16) :
    renamer.pairAt pool.namesAndTypes 1 index = pool.pair? index := by
  by_cases zero : index = 0
  · subst zero
    simp [pairAt, get?_namesAndTypes fits, pair?, get?]
  · have positive : index.toNat ≠ 0 := fun same => zero (UInt16.toNat_inj.mp same)
    rw [pairAt_of_le (by omega), get?_namesAndTypes fits]

/-- Nothing changes at an index that has no known pair or keeps its descriptor. -/
theorem pairAt_stay {index : UInt16}
    (same : ∀ name text, known.get? index = some (name, text) → renamer.signature text = text) :
    renamer.pairAt known (index.toNat + 1) = renamer.pairAt known index.toNat := by
  funext place
  rw [pairAt_succ]
  split
  · rename_i here
    subst here
    rw [pairAt_of_le (Nat.le_refl _)]
    cases noted : known.get? place with
    | none => rfl
    | some pair => simp [same pair.1 pair.2 noted]
  · rfl

theorem filing_ofPool (renamer : Renamer) {pool : Pool} (fits : pool.Fits) :
    Filing renamer pool.namesAndTypes 1 (Interner.ofPool pool).pairs := by
  constructor
  · intro pair index filed
    rw [pairAt_one fits]
    exact (Interner.mem_pairs_ofPool fits).mp (Table.mem_of_find filed)
  · intro pair index filed other noted
    rw [get?_namesAndTypes fits] at noted
    exact Table.le_of_find (Interner.pairs_descend fits) filed
      ((Interner.mem_pairs_ofPool fits).mpr noted)
  · intro pair index stands _
    rw [pairAt_one fits] at stands
    exact Table.find_of_mem ((Interner.mem_pairs_ofPool fits).mpr stands)

theorem Filing.stay {index : UInt16} {pairs : Bindings (String × String) UInt16}
    (filing : Filing renamer known index.toNat pairs)
    (same : ∀ name text, known.get? index = some (name, text) → renamer.signature text = text) :
    Filing renamer known (index.toNat + 1) pairs := by
  constructor
  · rw [pairAt_stay same]
    exact filing.stands
  · exact filing.behind
  · rw [pairAt_stay same]
    exact filing.complete

/-- A pair that is not filed has none behind it: the last of them would be filed. -/
theorem Filing.noneBehind {index : UInt16} {pairs : Bindings (String × String) UInt16}
    (filing : Filing renamer known index.toNat pairs) {pair : String × String}
    (missing : pairs.get? pair = none) : NoneBehind known pair index := by
  intro other noted
  apply Decidable.byContradiction
  intro larger
  rw [UInt16.le_iff_toNat_le, Nat.not_le] at larger
  obtain ⟨last, above, lastNoted, none⟩ := exists_noneBehind other noted
  rw [UInt16.le_iff_toNat_le] at above
  obtain ⟨taken, present⟩ :=
    filing.complete pair last (by rw [pairAt_of_le (by omega), lastNoted]) none
  rw [missing] at present
  cases present

section Move

variable {index : UInt16} {interner : Interner} {name text : String}
  (filing : Filing renamer known index.toNat interner.pairs)
  (noted : known.get? index = some (name, text)) (changed : text ≠ renamer.signature text)

include filing noted changed

/-- After a pair is moved, the table has the new pair because it was nowhere, or what it had at
another index. -/
theorem Filing.get?_moved {pair : String × String} {place : UInt16}
    (found : (interner.moved index name text (renamer.signature text)).pairs.get? pair =
      some place) :
    pair = (name, renamer.signature text) ∧ place = index ∧ interner.pairs.get? pair = none ∨
      place ≠ index ∧ interner.pairs.get? pair = some place := by
  -- what is filed at the index is its old pair, and this one is taken out
  have left : interner.pairs.get? pair = some place →
      ¬ (pair = (name, text) ∧ interner.pairs.get? pair = some index) → place ≠ index := by
    intro filed notMoved here
    subst here
    have same := filing.stands pair place filed
    rw [pairAt_of_le (Nat.le_refl _), noted] at same
    cases same
    exact notMoved ⟨rfl, filed⟩
  rw [Interner.get?_moved_of_ne changed] at found
  split at found
  · rename_i target
    cases filed : interner.pairs.get? pair with
    | none =>
        rw [filed, Option.getD_none] at found
        cases found
        exact Or.inl ⟨target, rfl, rfl⟩
    | some taken =>
        rw [filed, Option.getD_some] at found
        cases found
        refine Or.inr ⟨left filed fun both => ?_, rfl⟩
        exact changed (Prod.mk.inj (both.1.symm.trans target)).2
  · split at found
    · cases found
    · rename_i notMoved
      exact Or.inr ⟨left found notMoved, found⟩

theorem Filing.move : Filing renamer known (index.toNat + 1)
    (interner.moved index name text (renamer.signature text)).pairs := by
  have stands : renamer.pairAt known (index.toNat + 1) index =
      some (name, renamer.signature text) := by
    rw [pairAt_succ, if_pos rfl, noted]
    rfl
  have elsewhere : ∀ place, place ≠ index → renamer.pairAt known (index.toNat + 1) place =
      renamer.pairAt known index.toNat place := by
    intro place other
    rw [pairAt_succ, if_neg other]
  constructor
  · intro pair place found
    rcases filing.get?_moved noted changed found with ⟨rfl, rfl, -⟩ | ⟨other, filed⟩
    · exact stands
    · rw [elsewhere place other]
      exact filing.stands pair place filed
  · intro pair place found
    rcases filing.get?_moved noted changed found with ⟨-, rfl, missing⟩ | ⟨-, filed⟩
    · exact filing.noneBehind missing
    · exact filing.behind pair place filed
  · intro pair place there none
    rw [Interner.get?_moved_of_ne changed]
    split
    · exact ⟨_, rfl⟩
    · rename_i other
      have elsewhereThere : place ≠ index := by
        intro here
        subst here
        rw [stands] at there
        cases there
        exact other rfl
      rw [elsewhere place elsewhereThere] at there
      obtain ⟨taken, filed⟩ := filing.complete pair place there none
      split
      · rename_i gone
        obtain ⟨rfl, here⟩ := gone
        -- the pair would be filed behind all that had it, and so would the other index be
        have least := none index noted
        have ahead : index.toNat ≤ place.toNat := UInt16.le_iff_toNat_le.mp least
        rw [pairAt_of_le ahead] at there
        have most := filing.behind _ _ here place there
        exact absurd (UInt16.le_antisymm most least) elsewhereThere
      · exact ⟨taken, filed⟩

end Move

end Filing

end Renamer

end Deobfuscation
