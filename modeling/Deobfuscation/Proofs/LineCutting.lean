import Deobfuscation.Proofs.LineReading
import Mathlib.Data.List.Forall2

/-!
Which lines a file has. Its bytes are cut behind line feeds, a carriage return before the feed goes
with it, and what is left at the end is a line unless it is empty. A line has the text that its
bytes are the UTF-8 of, or none if there is no such text. This says it all: a file has one list of
lines, the one that is read.
-/

namespace Deobfuscation

namespace Text.Utf8

open ModifiedUtf8 (toNat_ofNat ofNat_eq tripleValue_valid)

section Characters

variable {first second third fourth : UInt8}

theorem encodeChar_ofNat {value : Nat} (valid : value.isValidChar) :
    String.utf8EncodeChar (Char.ofNat value) =
      if value ≤ 0x7F then [UInt8.ofNat value]
      else if value ≤ 0x7FF then
        [UInt8.ofNat (value / 64 % 32 + 192), UInt8.ofNat (value % 64 + 128)]
      else if value ≤ 0xFFFF then
        [UInt8.ofNat (value / 4096 % 16 + 224), UInt8.ofNat (value / 64 % 64 + 128),
          UInt8.ofNat (value % 64 + 128)]
      else
        [UInt8.ofNat (value / 262144 % 8 + 240), UInt8.ofNat (value / 4096 % 64 + 128),
          UInt8.ofNat (value / 64 % 64 + 128), UInt8.ofNat (value % 64 + 128)] := by
  have same : (Char.ofNat value).val.toNat = value := toNat_ofNat valid
  unfold String.utf8EncodeChar
  simp only [same]

theorem encodeChar_ascii (small : first.toNat < 0x80) :
    String.utf8EncodeChar (Char.ofNat first.toNat) = [first] := by
  rw [encodeChar_ofNat (Or.inl (by omega)), if_pos (by omega), UInt8.ofNat_toNat]

theorem encodeChar_pairValue (sequence : isPair first second = true) :
    String.utf8EncodeChar (Char.ofNat (pairValue first second)) = [first, second] := by
  simp only [isPair, isTail, Bool.and_eq_true, decide_eq_true_eq] at sequence
  unfold pairValue
  rw [encodeChar_ofNat (Or.inl (by omega)), if_neg (by omega), if_pos (by omega),
    ofNat_eq first (by omega), ofNat_eq second (by omega)]

theorem encodeChar_tripleValue (sequence : isTriple first second third = true) :
    String.utf8EncodeChar (Char.ofNat (tripleValue first second third)) =
      [first, second, third] := by
  have valid := tripleValue_valid sequence
  simp only [isTriple, isTripleUnit, isTail, Bool.and_eq_true, Bool.or_eq_true,
    decide_eq_true_eq] at sequence
  rw [encodeChar_ofNat valid]
  unfold tripleValue
  rw [if_neg (by omega), if_neg (by omega), if_pos (by omega), ofNat_eq first (by omega),
    ofNat_eq second (by omega), ofNat_eq third (by omega)]

theorem encodeChar_quadValue (sequence : isQuad first second third fourth = true) :
    String.utf8EncodeChar (Char.ofNat (quadValue first second third fourth)) =
      [first, second, third, fourth] := by
  simp only [isQuad, isTail, Bool.and_eq_true, Bool.or_eq_true, decide_eq_true_eq] at sequence
  unfold quadValue
  rw [encodeChar_ofNat (Or.inr (by omega)), if_neg (by omega), if_neg (by omega),
    if_neg (by omega), ofNat_eq first (by omega), ofNat_eq second (by omega),
    ofNat_eq third (by omega), ofNat_eq fourth (by omega)]

end Characters

theorem toList_toUTF8 (text : String) :
    text.toUTF8.data.toList = text.toList.flatMap String.utf8EncodeChar := by
  conv_lhs => rw [← @String.ofList_toList text]
  rw [String.toUTF8_eq_toByteArray, String.toByteArray_ofList, List.utf8Encode,
    List.toList_data_toByteArray]

/-- Bytes are read as the characters that they are the UTF-8 of, and as nothing else. -/
theorem decode?_eq_some_iff {bytes : List UInt8} {chars : List Char} :
    decode? bytes = some chars ↔ chars.flatMap String.utf8EncodeChar = bytes := by
  constructor
  · intro read
    fun_induction decode? bytes generalizing chars with
    | case1 =>
        cases read
        rfl
    | case2 first rest small ih =>
        obtain ⟨later, found, rfl⟩ := Option.map_eq_some_iff.mp read
        rw [List.flatMap_cons, encodeChar_ascii small, ih found]
        rfl
    | case4 first large second rest sequence ih =>
        obtain ⟨later, found, rfl⟩ := Option.map_eq_some_iff.mp read
        rw [List.flatMap_cons, encodeChar_pairValue sequence, ih found]
        rfl
    | case6 first large second single third rest sequence ih =>
        obtain ⟨later, found, rfl⟩ := Option.map_eq_some_iff.mp read
        rw [List.flatMap_cons, encodeChar_tripleValue sequence, ih found]
        rfl
    | case8 first large second single third noTriple fourth rest sequence ih =>
        obtain ⟨later, found, rfl⟩ := Option.map_eq_some_iff.mp read
        rw [List.flatMap_cons, encodeChar_quadValue sequence, ih found]
        rfl
    | _ => cases read
  · rintro rfl
    exact decode?_encode chars

end Text.Utf8

namespace Mapping.Line

open Text

/-- Pieces that bytes are cut into, without the marks at their ends. -/
inductive Cut : List UInt8 → List (List UInt8) → Prop
  | nothing : Cut [] []
  | unfinished {piece : List UInt8} (nonempty : piece ≠ []) (free : 0x0A ∉ piece) :
      Cut piece [piece]
  | feed {piece rest : List UInt8} {pieces : List (List UInt8)} (free : 0x0A ∉ piece)
      (plain : piece.getLast? ≠ some 0x0D) (later : Cut rest pieces) :
      Cut (piece ++ 0x0A :: rest) (piece :: pieces)
  | returnAndFeed {piece rest : List UInt8} {pieces : List (List UInt8)} (free : 0x0A ∉ piece)
      (later : Cut rest pieces) : Cut (piece ++ 0x0D :: 0x0A :: rest) (piece :: pieces)

/-- The line has the text with this UTF-8, and no text if there is none. -/
def Spells (line : Line) (piece : List UInt8) : Prop :=
  ∀ text : String, line.text = some text ↔ text.toUTF8.data.toList = piece

/-- The bytes have these lines, which are numbered from one. -/
structure Listed (bytes : List UInt8) (lines : List Line) : Prop where
  pieces : ∃ pieces, Cut bytes pieces ∧ List.Forall₂ Spells lines pieces
  numbers : lines.map Line.number = List.range' 1 lines.length

section Cutting

theorem split_of_cut {bytes : List UInt8} {pieces : List (List UInt8)} (cut : Cut bytes pieces) :
    split [] bytes = pieces := by
  induction cut with
  | nothing => rfl
  | @unfinished piece nonempty free =>
      have whole := split_append free [] []
      rw [List.append_nil, List.append_nil] at whole
      rw [whole]
      cases reversed : piece.reverse with
      | nil => exact absurd (List.reverse_eq_nil_iff.mp reversed) nonempty
      | cons last front => rw [split, ← reversed, List.reverse_reverse]
  | @feed piece rest pieces free plain _ ih =>
      rw [split_append free, List.append_nil, split, if_pos rfl, finish_reverse plain, ih]
  | @returnAndFeed piece rest pieces free _ ih =>
      rw [split_append free, List.append_nil, split, if_neg (by decide), split, if_pos rfl, ih,
        finish, List.reverse_reverse]

theorem exists_cut (bytes : List UInt8) : ∃ pieces, Cut bytes pieces := by
  induction length : bytes.length using Nat.strongRecOn generalizing bytes with
  | ind size ih =>
      by_cases ended : 0x0A ∈ bytes
      · obtain ⟨piece, rest, rfl, free⟩ := List.eq_append_cons_of_mem ended
        rw [List.length_append, List.length_cons] at length
        obtain ⟨pieces, later⟩ := ih rest.length (by omega) rest rfl
        by_cases marked : piece.getLast? = some 0x0D
        · obtain ⟨front, rfl⟩ := List.getLast?_eq_some_iff.mp marked
          rw [List.append_assoc]
          exact ⟨front :: pieces,
            .returnAndFeed (fun member => free (List.mem_append_left _ member)) later⟩
        · exact ⟨piece :: pieces, .feed free marked later⟩
      · cases bytes with
        | nil => exact ⟨[], .nothing⟩
        | cons first others => exact ⟨[first :: others], .unfinished (List.cons_ne_nil _ _) ended⟩

theorem cut_iff {bytes : List UInt8} {pieces : List (List UInt8)} :
    Cut bytes pieces ↔ split [] bytes = pieces := by
  constructor
  · exact split_of_cut
  · rintro rfl
    obtain ⟨pieces, cut⟩ := exists_cut bytes
    rwa [split_of_cut cut]

end Cutting

section Listing

theorem spells_iff {line : Line} {piece : List UInt8} :
    line.Spells piece ↔ line.text = (Utf8.decode? piece).map String.ofList := by
  have written : ∀ text : String, (Utf8.decode? piece).map String.ofList = some text ↔
      text.toUTF8.data.toList = piece := by
    intro text
    rw [Utf8.toList_toUTF8, ← Utf8.decode?_eq_some_iff, Option.map_eq_some_iff]
    constructor
    · rintro ⟨chars, read, rfl⟩
      rwa [String.toList_ofList]
    · intro read
      exact ⟨text.toList, read, String.ofList_toList⟩
  constructor
  · intro spells
    exact Option.ext fun text => (spells text).trans (written text).symm
  · intro same text
    rw [same, written]

theorem eq_of_numbers_of_texts {lines others : List Line}
    (numbers : lines.map Line.number = others.map Line.number)
    (texts : lines.map Line.text = others.map Line.text) : lines = others := by
  have whole : ∀ lines : List Line,
      lines = ((lines.map Line.number).zip (lines.map Line.text)).map fun line =>
        ⟨line.1, line.2⟩ := by
    intro lines
    rw [List.zip_map', List.map_map]
    exact (List.map_id lines).symm
  rw [whole lines, whole others, numbers, texts]

/-- A file has the lines that are read from it and no others. -/
theorem listed_iff {bytes : List UInt8} {lines : List Line} :
    Listed bytes lines ↔ lines = ofBytes bytes := by
  have spelled : ∀ {lines pieces}, List.Forall₂ Spells lines pieces ↔
      lines.map Line.text = pieces.map fun piece => (Utf8.decode? piece).map String.ofList := by
    intro lines pieces
    rw [← List.forall₂_eq_eq_eq, List.forall₂_map_left_iff, List.forall₂_map_right_iff]
    constructor
    · exact List.Forall₂.imp fun _ _ => spells_iff.mp
    · exact List.Forall₂.imp fun _ _ => spells_iff.mpr
  constructor
  · rintro ⟨⟨pieces, cut, spells⟩, numbers⟩
    have texts : lines.map Line.text = (ofBytes bytes).map Line.text := by
      rw [spelled.mp spells, texts_ofBytes, cut_iff.mp cut]
    have count : lines.length = (ofBytes bytes).length := by
      simpa using congrArg List.length texts
    apply eq_of_numbers_of_texts _ texts
    rw [numbers, numbers_ofBytes, count]
  · rintro rfl
    exact ⟨⟨split [] bytes, cut_iff.mpr rfl, spelled.mpr (texts_ofBytes bytes)⟩,
      numbers_ofBytes bytes⟩

end Listing

end Mapping.Line

end Deobfuscation
