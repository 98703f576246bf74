/-!
Cutting lines at marks. Each function comes with the equation between the line and
its pieces, so readers of lines can be reasoned about without unfolding them.
-/

namespace Deobfuscation.Text

def stripStart? : List Char → List Char → Option (List Char)
  | [], text => some text
  | _ :: _, [] => none
  | expected :: start, char :: text => if expected = char then stripStart? start text else none

def stripEnd? (ending text : List Char) : Option (List Char) :=
  (stripStart? ending.reverse text.reverse).map List.reverse

/-- The parts before and after the first place where the mark stands. -/
def cut? (mark : List Char) : List Char → Option (List Char × List Char)
  | [] => (stripStart? mark []).map fun rest => ([], rest)
  | char :: text =>
      match stripStart? mark (char :: text) with
      | some rest => some ([], rest)
      | none => (cut? mark text).map fun parts => (char :: parts.1, parts.2)

def cutLast? (mark : Char) (text : List Char) : Option (List Char × List Char) :=
  (cut? [mark] text.reverse).map fun parts => (parts.2.reverse, parts.1.reverse)

/-- The parts between all places where the character stands: one more than places. -/
def splitAll (mark : Char) : List Char → List (List Char)
  | [] => [[]]
  | char :: text =>
      if char = mark then [] :: splitAll mark text
      else match splitAll mark text with
        | [] => [[char]]
        | part :: parts => (char :: part) :: parts

@[simp] theorem stripStart?_eq_some {start text rest : List Char} :
    stripStart? start text = some rest ↔ text = start ++ rest := by
  induction start generalizing text with
  | nil => simp [stripStart?]
  | cons expected start ih =>
      cases text with
      | nil => simp [stripStart?]
      | cons char text =>
          by_cases same : expected = char
          · simp [stripStart?, same, ih]
          · simp [stripStart?, same, Ne.symm same]

@[simp] theorem stripEnd?_eq_some {ending text rest : List Char} :
    stripEnd? ending text = some rest ↔ text = rest ++ ending := by
  simp only [stripEnd?, Option.map_eq_some_iff, stripStart?_eq_some]
  constructor
  · rintro ⟨found, reversed, rfl⟩
    have := congrArg List.reverse reversed
    simpa using this
  · intro same
    exact ⟨rest.reverse, by simp [same], by simp⟩

theorem cut?_append {mark text before after : List Char}
    (found : cut? mark text = some (before, after)) : text = before ++ mark ++ after := by
  induction text generalizing before with
  | nil =>
      obtain ⟨rest, start, same⟩ := Option.map_eq_some_iff.mp found
      cases same
      simpa using stripStart?_eq_some.mp start
  | cons char text ih =>
      simp only [cut?] at found
      split at found
      · rename_i rest start
        cases found
        simpa using stripStart?_eq_some.mp start
      · obtain ⟨parts, later, same⟩ := Option.map_eq_some_iff.mp found
        cases same
        simp [ih later]

end Deobfuscation.Text
