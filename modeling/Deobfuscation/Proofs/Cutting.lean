import Deobfuscation.Text.Cut
import Mathlib.Data.List.Basic

/-!
Cutting what was put together. A text is cut at the first or last place of a mark, so pieces
without the mark come back as they were.
-/

namespace Deobfuscation.Text

theorem stripStart?_of_head_ne {expected : Char} {start text : List Char}
    (other : text.head? ≠ some expected) : stripStart? (expected :: start) text = none := by
  cases text with
  | nil => rfl
  | cons char rest =>
      have different : ¬ expected = char := fun same => other (by simp [same])
      simp [stripStart?, different]

/-- A text is cut before the first place where the mark can begin. -/
theorem cut?_of_append {first : Char} {before : List Char} (absent : first ∉ before)
    (mark after : List Char) :
    cut? (first :: mark) (before ++ first :: (mark ++ after)) = some (before, after) := by
  induction before with
  | nil =>
      have here : stripStart? (first :: mark) (first :: (mark ++ after)) = some after := by simp
      rw [List.nil_append, cut?, here]
  | cons char rest ih =>
      simp only [List.mem_cons, not_or] at absent
      have other : (char :: (rest ++ first :: (mark ++ after))).head? ≠ some first := by
        simpa using Ne.symm absent.1
      rw [List.cons_append, cut?, stripStart?_of_head_ne other]
      simp only [ih absent.2, Option.map_some]

theorem cut?_of_not_mem {first : Char} {text : List Char} (absent : first ∉ text)
    (mark : List Char) : cut? (first :: mark) text = none := by
  induction text with
  | nil => rfl
  | cons char rest ih =>
      simp only [List.mem_cons, not_or] at absent
      have other : (char :: rest).head? ≠ some first := by simpa using Ne.symm absent.1
      rw [cut?, stripStart?_of_head_ne other]
      simp only [ih absent.2, Option.map_none]

/-- A text has one form as a piece without the mark, the mark, and a rest. -/
theorem pieces_eq_of_append_eq {mark : Char} {first second firstRest secondRest : List Char}
    (firstFree : mark ∉ first) (secondFree : mark ∉ second)
    (equal : first ++ mark :: firstRest = second ++ mark :: secondRest) :
    first = second ∧ firstRest = secondRest := by
  have cutFirst := cut?_of_append firstFree [] firstRest
  have cutSecond := cut?_of_append secondFree [] secondRest
  simp only [List.nil_append] at cutFirst cutSecond
  rw [equal, cutSecond] at cutFirst
  simpa [eq_comm] using cutFirst

theorem cut?_single_eq_some_iff {mark : Char} {text before after : List Char} :
    cut? [mark] text = some (before, after) ↔ text = before ++ mark :: after ∧ mark ∉ before := by
  constructor
  · intro found
    have present : mark ∈ text := by simp [cut?_append found]
    obtain ⟨first, rest, rfl, absent⟩ := List.eq_append_cons_of_mem present
    have cutting := cut?_of_append absent [] rest
    rw [List.nil_append, found] at cutting
    obtain ⟨rfl, rfl⟩ := Prod.mk.inj (Option.some.inj cutting)
    exact ⟨rfl, absent⟩
  · rintro ⟨rfl, absent⟩
    exact cut?_of_append absent [] after

theorem cutLast?_eq_some_iff {mark : Char} {text before after : List Char} :
    cutLast? mark text = some (before, after) ↔ text = before ++ mark :: after ∧ mark ∉ after := by
  have reversed : text.reverse = after.reverse ++ mark :: before.reverse ↔
      text = before ++ mark :: after := by
    rw [List.reverse_eq_iff]
    simp
  have inside : mark ∉ after.reverse ↔ mark ∉ after := by simp
  rw [← reversed, ← inside, ← cut?_single_eq_some_iff, cutLast?, Option.map_eq_some_iff]
  constructor
  · rintro ⟨parts, found, same⟩
    obtain ⟨rfl, rfl⟩ := Prod.mk.inj same
    simpa using found
  · exact fun found => ⟨_, found, by simp⟩

theorem cutLast?_eq_none_iff {mark : Char} {text : List Char} :
    cutLast? mark text = none ↔ mark ∉ text := by
  constructor
  · intro missing present
    obtain ⟨before, after, same, absent⟩ :=
      List.eq_append_cons_of_mem (List.mem_reverse.mpr present)
    rw [cutLast?, cut?_single_eq_some_iff.mpr ⟨same, absent⟩] at missing
    cases missing
  · intro absent
    have reversed : mark ∉ text.reverse := by simpa using absent
    rw [cutLast?, cut?_of_not_mem reversed, Option.map_none]

theorem splitAll_eq_splitOn (mark : Char) (text : List Char) :
    splitAll mark text = text.splitOn mark := by
  induction text with
  | nil => rfl
  | cons char rest ih =>
      rw [splitAll, List.splitOn_cons_eq_if_modifyHead, ih]
      by_cases same : char = mark
      · simp [same]
      · cases parts : rest.splitOn mark with
        | nil => exact absurd parts (List.splitOn_ne_nil mark rest)
        | cons part more => simp [same]

theorem splitAll_ne_nil (mark : Char) (text : List Char) : splitAll mark text ≠ [] := by
  rw [splitAll_eq_splitOn]
  exact List.splitOn_ne_nil mark text

theorem splitAll_append (mark : Char) (before after : List Char) :
    splitAll mark (before ++ mark :: after) = splitAll mark before ++ splitAll mark after := by
  rw [splitAll_eq_splitOn, splitAll_eq_splitOn, splitAll_eq_splitOn]
  exact List.splitOn_append_cons_self before after

theorem not_mem_of_mem_splitAll {mark : Char} {text piece : List Char}
    (member : piece ∈ splitAll mark text) : mark ∉ piece := by
  induction text generalizing piece with
  | nil =>
      obtain rfl := List.mem_singleton.mp member
      exact List.not_mem_nil
  | cons char rest ih =>
      rw [splitAll] at member
      split at member
      · rcases List.mem_cons.mp member with rfl | later
        · exact List.not_mem_nil
        · exact ih later
      · rename_i other
        cases pieces : splitAll mark rest with
        | nil => exact absurd pieces (splitAll_ne_nil mark rest)
        | cons first more =>
            rw [pieces] at ih member
            rcases List.mem_cons.mp member with rfl | later
            · simp [Ne.symm other, ih List.mem_cons_self]
            · exact ih (List.mem_cons_of_mem first later)

theorem splitAll_intercalate {mark : Char} {parts : List (List Char)} (present : parts ≠ [])
    (absent : ∀ part ∈ parts, mark ∉ part) :
    splitAll mark ([mark].intercalate parts) = parts := by
  rw [splitAll_eq_splitOn]
  exact List.splitOn_intercalate mark absent present

theorem intercalate_splitAll (mark : Char) (text : List Char) :
    [mark].intercalate (splitAll mark text) = text := by
  rw [splitAll_eq_splitOn]
  exact List.intercalate_splitOn mark

theorem mem_of_mem_intercalate {mark char : Char} {parts : List (List Char)}
    (member : char ∈ [mark].intercalate parts) : char = mark ∨ ∃ part ∈ parts, char ∈ part := by
  induction parts with
  | nil => simp at member
  | cons part rest ih =>
      cases rest with
      | nil => exact Or.inr ⟨part, by simp, by simpa using member⟩
      | cons next others =>
          rw [List.intercalate_cons_cons, List.mem_append, List.mem_append] at member
          rcases member with (here | between) | later
          · exact Or.inr ⟨part, by simp, here⟩
          · exact Or.inl (List.mem_singleton.mp between)
          · rcases ih later with same | ⟨other, inside, found⟩
            · exact Or.inl same
            · exact Or.inr ⟨other, List.mem_cons_of_mem part inside, found⟩

theorem intercalate_concat (mark : Char) (parts : List (List Char)) (last : List Char) :
    ∃ before, [mark].intercalate (parts ++ [last]) = before ++ last := by
  induction parts with
  | nil => exact ⟨[], by simp⟩
  | cons part rest ih =>
      obtain ⟨before, same⟩ := ih
      cases rest with
      | nil => exact ⟨part ++ [mark], by simp⟩
      | cons next others =>
          refine ⟨part ++ [mark] ++ before, ?_⟩
          rw [List.cons_append, List.cons_append, List.intercalate_cons_cons, ← List.cons_append,
            same, List.append_assoc _ before]

end Deobfuscation.Text
