import Deobfuscation.Collision
import Mathlib.Data.Finset.Card
import Mathlib.Order.Bounds.Defs
import Mathlib.Order.Interval.Finset.Nat

/-!
Free names. The candidates of a name are all different, so the names that are taken hold only as
many of them as there are taken names. The search through all candidates comes to an end for this
reason, and it is enough to look at one more candidate than names are taken.
-/

namespace Deobfuscation.Collision

theorem candidate_injective (name : String) : Function.Injective (candidate name) := by
  intro first second same
  have shown : toString first = toString second := (String.append_right_inj _).mp same
  rw [Nat.toString_eq_repr, Nat.toString_eq_repr, ← String.toList_inj, Nat.toList_repr,
    Nat.toList_repr] at shown
  have read := congrArg (fun digits => Nat.ofDigitChars 10 digits 0) shown
  simpa [Nat.ofDigitChars_toDigits] using read

theorem candidate_ne (name : String) (ordinal : Nat) : candidate name ordinal ≠ name := by
  intro same
  have lengths := congrArg String.length same
  simp only [candidate, String.length_append] at lengths
  have mark : "_".length = 1 := rfl
  omega

/-- The ordinals from the first on whose candidates are not taken. -/
def FreeFrom (name : String) (first : Nat) (taken : List String) : Set Nat :=
  {ordinal | first ≤ ordinal ∧ candidate name ordinal ∉ taken}

/-- The search goes through all ordinals from the first on, and nothing but a free candidate ends
it. -/
inductive Search (name : String) (taken : List String) : Nat → Nat → Prop where
  | free {ordinal : Nat} (untaken : candidate name ordinal ∉ taken) :
      Search name taken ordinal ordinal
  | next {ordinal last : Nat} (held : candidate name ordinal ∈ taken)
      (rest : Search name taken (ordinal + 1) last) : Search name taken ordinal last

section Searching

variable {name : String} {taken : List String} {first last : Nat}

theorem Search.isLeast (search : Search name taken first last) :
    IsLeast (FreeFrom name first taken) last := by
  induction search with
  | free untaken => exact ⟨⟨Nat.le_refl _, untaken⟩, fun _ free => free.1⟩
  | @next ordinal last held rest ih =>
      obtain ⟨⟨after, untaken⟩, lowest⟩ := ih
      refine ⟨⟨by omega, untaken⟩, ?_⟩
      rintro other ⟨later, free⟩
      -- the candidate that was passed over is taken
      have different : other ≠ ordinal := by
        rintro rfl
        exact free held
      exact lowest ⟨by omega, free⟩

theorem search_of_isLeast (least : IsLeast (FreeFrom name first taken) last) :
    Search name taken first last := by
  obtain ⟨⟨after, untaken⟩, lowest⟩ := least
  -- from the least free ordinal back to the first one
  induction after using Nat.decreasingInduction with
  | self => exact .free untaken
  | of_succ ordinal before ih =>
      have held : candidate name ordinal ∈ taken := by
        by_contra free
        have bound := lowest ⟨Nat.le_refl _, free⟩
        omega
      refine .next held (ih ?_)
      rintro other ⟨later, free⟩
      exact lowest ⟨by omega, free⟩

end Searching

theorem exists_free (name : String) (first : Nat) (taken : List String) :
    ∃ ordinal ∈ FreeFrom name first taken, ordinal ≤ first + taken.toFinset.card := by
  have more : taken.toFinset.card <
      ((Finset.Icc first (first + taken.toFinset.card)).image (candidate name)).card := by
    rw [Finset.card_image_of_injective _ (candidate_injective name), Nat.card_Icc]
    omega
  obtain ⟨choice, listed, untaken⟩ := Finset.exists_mem_notMem_of_card_lt_card more
  obtain ⟨ordinal, inside, rfl⟩ := Finset.mem_image.mp listed
  obtain ⟨after, bound⟩ := Finset.mem_Icc.mp inside
  exact ⟨ordinal, ⟨after, fun held => untaken (List.mem_toFinset.mpr held)⟩, bound⟩

theorem exists_least_free (name : String) (first : Nat) (taken : List String) :
    ∃ ordinal, IsLeast (FreeFrom name first taken) ordinal ∧
      ordinal ≤ first + taken.toFinset.card := by
  classical
  obtain ⟨ordinal, free, bound⟩ := exists_free name first taken
  have someFree : ∃ ordinal, ordinal ∈ FreeFrom name first taken := ⟨ordinal, free⟩
  exact ⟨Nat.find someFree, ⟨Nat.find_spec someFree, fun _ => Nat.find_min' someFree⟩,
    Nat.le_trans (Nat.find_min' someFree free) bound⟩

/-- The candidates that are looked at reach to the least free one. -/
theorem freeName_of_isLeast {name : String} {first ordinal : Nat} {taken : List String}
    (least : IsLeast (FreeFrom name first taken) ordinal)
    (bound : ordinal ≤ first + taken.toFinset.card) :
    freeName name first taken = candidate name ordinal := by
  obtain ⟨⟨after, untaken⟩, lowest⟩ := least
  have size : taken.toFinset.card ≤ taken.length := taken.toFinset_card_le
  have found : (List.range' first (taken.length + 1)).find?
      ((fun choice => !taken.contains choice) ∘ candidate name) = some ordinal := by
    rw [List.find?_range'_eq_some]
    refine ⟨by simpa using untaken, List.mem_range'_1.mpr ⟨after, by omega⟩, ?_⟩
    intro earlier low below
    by_contra free
    have limit := lowest ⟨low, by simpa using free⟩
    omega
  simp only [freeName]
  rw [List.find?_map, found]
  rfl

theorem freeName_not_mem (name : String) (first : Nat) (taken : List String) :
    freeName name first taken ∉ taken := by
  obtain ⟨ordinal, least, bound⟩ := exists_least_free name first taken
  rw [freeName_of_isLeast least bound]
  exact least.1.2

theorem freeName_eq_candidate (name : String) (first : Nat) (taken : List String) :
    ∃ ordinal, first ≤ ordinal ∧ freeName name first taken = candidate name ordinal := by
  obtain ⟨ordinal, least, bound⟩ := exists_least_free name first taken
  exact ⟨ordinal, least.1.1, freeName_of_isLeast least bound⟩

/-- The search ends, at one ordinal only: the least one from the first on whose candidate is not
taken. It is at most as many steps away as names are taken, so no ordinal on the way, the next one
included, needs more than 64 bits unless the first one and the number of names do. Its candidate is
the free name, which is never the bare name. -/
theorem freeName_least (name : String) (first : Nat) (taken : List String) :
    ∃ ordinal, (∀ last, Search name taken first last ↔ last = ordinal) ∧
      IsLeast (FreeFrom name first taken) ordinal ∧
      ordinal ≤ first + taken.toFinset.card ∧
      (first + taken.toFinset.card + 1 < 2 ^ 64 → ordinal + 1 < 2 ^ 64) ∧
      freeName name first taken = candidate name ordinal ∧
      freeName name first taken ≠ name := by
  obtain ⟨ordinal, least, bound⟩ := exists_least_free name first taken
  have result := freeName_of_isLeast least bound
  refine ⟨ordinal, ?_, least, bound, by omega, result, ?_⟩
  · intro last
    constructor
    · intro search
      exact search.isLeast.unique least
    · rintro rfl
      exact search_of_isLeast least
  · rw [result]
    exact candidate_ne name ordinal

example : freeName "x" 1 ["x", "x_1", "x_2", "y_0"] = "x_3" := by decide

end Deobfuscation.Collision
