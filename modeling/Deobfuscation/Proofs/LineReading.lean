import Deobfuscation.Mapping.Line
import Deobfuscation.Proofs.TextRoundTrip
import Mathlib.Data.List.Basic
import Mathlib.Data.List.Induction

/-!
The lines of a file. They are numbered from one, and texts that are written as UTF-8 with a line
feed behind each are the lines that are read.
-/

namespace Deobfuscation

namespace Text.Utf8

open ModifiedUtf8 (toNat_byte char_range pair_bytes triple_bytes decode?_ascii decode?_pair
  decode?_triple)

theorem decode?_quad (first second third fourth : UInt8) (rest : List UInt8)
    (sequence : isQuad first second third fourth = true) :
    decode? (first :: second :: third :: fourth :: rest) =
      (decode? rest).map (Char.ofNat (quadValue first second third fourth) :: ·) := by
  have parts := sequence
  simp only [isQuad, Bool.and_eq_true, decide_eq_true_eq] at parts
  have notAscii : ¬ first.toNat < 0x80 := by omega
  have notPair : isPair first second = false := by
    simp only [isPair, Bool.and_eq_false_iff, decide_eq_false_iff_not]
    omega
  have notTriple : isTriple first second third = false := by
    simp only [isTriple, isTripleUnit, Bool.and_eq_false_iff, decide_eq_false_iff_not]
    omega
  rw [decode?.eq_def]
  simp [notAscii, notPair, notTriple, sequence]

/-- The bytes of a character in four parts are one sequence with its value. -/
theorem quad_bytes {value : Nat} {first second third fourth : UInt8}
    (firstByte : first.toNat = 0xF0 + value / 0x40000)
    (secondByte : second.toNat = 0x80 + value / 0x1000 % 0x40)
    (thirdByte : third.toNat = 0x80 + value / 0x40 % 0x40)
    (fourthByte : fourth.toNat = 0x80 + value % 0x40)
    (low : 0x10000 ≤ value) (high : value < 0x110000) :
    isQuad first second third fourth = true ∧ quadValue first second third fourth = value := by
  constructor
  · simp only [isQuad, isTail, Bool.and_eq_true, Bool.or_eq_true, decide_eq_true_eq]
    omega
  · unfold quadValue
    omega

theorem toNat_ofNat_eq {value expected : Nat} (small : value < 0x100) (same : value = expected) :
    (UInt8.ofNat value).toNat = expected := by
  rw [toNat_byte value small, same]

/-- One character is read back from its bytes, whatever follows. -/
theorem decode?_encodeChar (char : Char) (rest : List UInt8) :
    decode? (String.utf8EncodeChar char ++ rest) = (decode? rest).map (char :: ·) := by
  have range := char_range char
  have value : char.val.toNat = char.toNat := rfl
  unfold String.utf8EncodeChar
  simp only [value]
  by_cases one : char.toNat ≤ 0x7F
  · have byte := toNat_byte char.toNat (by omega)
    have read := decode?_ascii (UInt8.ofNat char.toNat) rest (by omega)
    rw [byte, Char.ofNat_toNat] at read
    rw [if_pos one]
    exact read
  by_cases two : char.toNat ≤ 0x7FF
  · have first : (UInt8.ofNat (char.toNat / 64 % 32 + 192)).toNat = 0xC0 + char.toNat / 0x40 :=
      toNat_ofNat_eq (by omega) (by omega)
    have second : (UInt8.ofNat (char.toNat % 64 + 128)).toNat = 0x80 + char.toNat % 0x40 :=
      toNat_ofNat_eq (by omega) (by omega)
    obtain ⟨sequence, same⟩ := pair_bytes first second (by omega) (by omega)
    have read := decode?_pair _ _ rest sequence
    rw [same, Char.ofNat_toNat] at read
    rw [if_neg one, if_pos two]
    exact read
  have third : (UInt8.ofNat (char.toNat / 64 % 64 + 128)).toNat =
      0x80 + char.toNat / 0x40 % 0x40 := toNat_ofNat_eq (by omega) (by omega)
  have fourth : (UInt8.ofNat (char.toNat % 64 + 128)).toNat = 0x80 + char.toNat % 0x40 :=
    toNat_ofNat_eq (by omega) (by omega)
  by_cases three : char.toNat ≤ 0xFFFF
  · have first : (UInt8.ofNat (char.toNat / 4096 % 16 + 224)).toNat =
        0xE0 + char.toNat / 0x1000 := toNat_ofNat_eq (by omega) (by omega)
    obtain ⟨-, same, triple⟩ := triple_bytes first third fourth (by omega) (by omega)
    have read := decode?_triple _ _ _ rest (triple (by omega))
    rw [same, Char.ofNat_toNat] at read
    rw [if_neg one, if_neg two, if_pos three]
    exact read
  · have first : (UInt8.ofNat (char.toNat / 262144 % 8 + 240)).toNat =
        0xF0 + char.toNat / 0x40000 := toNat_ofNat_eq (by omega) (by omega)
    have second : (UInt8.ofNat (char.toNat / 4096 % 64 + 128)).toNat =
        0x80 + char.toNat / 0x1000 % 0x40 := toNat_ofNat_eq (by omega) (by omega)
    obtain ⟨sequence, same⟩ := quad_bytes first second third fourth (by omega) (by omega)
    have read := decode?_quad _ _ _ _ rest sequence
    rw [same, Char.ofNat_toNat] at read
    rw [if_neg one, if_neg two, if_neg three]
    exact read

theorem decode?_encode (chars : List Char) :
    decode? (chars.flatMap String.utf8EncodeChar) = some chars := by
  induction chars with
  | nil => rfl
  | cons char rest ih => rw [List.flatMap_cons, decode?_encodeChar, ih, Option.map_some]

/-- A byte below `80` stands for a character of its own. -/
theorem toNat_of_mem_encodeChar {char : Char} {byte : UInt8}
    (member : byte ∈ String.utf8EncodeChar char) (small : byte.toNat < 0x80) :
    byte.toNat = char.toNat := by
  have value : char.val.toNat = char.toNat := rfl
  unfold String.utf8EncodeChar at member
  simp only [value] at member
  have large : ∀ number, 0x80 ≤ number → number < 0x100 → byte ≠ UInt8.ofNat number := by
    rintro number low high rfl
    rw [toNat_byte number high] at small
    omega
  split at member
  · rw [List.mem_singleton.mp member]
    exact toNat_byte _ (by omega)
  split at member
  · simp only [List.mem_cons, List.not_mem_nil, or_false] at member
    rcases member with same | same <;> exact absurd same (large _ (by omega) (by omega))
  split at member
  · simp only [List.mem_cons, List.not_mem_nil, or_false] at member
    rcases member with same | same | same <;> exact absurd same (large _ (by omega) (by omega))
  · simp only [List.mem_cons, List.not_mem_nil, or_false] at member
    rcases member with same | same | same | same <;>
      exact absurd same (large _ (by omega) (by omega))

theorem mem_of_mem_encode {chars : List Char} {char : Char} (small : char.toNat < 0x80)
    (member : UInt8.ofNat char.toNat ∈ chars.flatMap String.utf8EncodeChar) : char ∈ chars := by
  obtain ⟨other, inside, part⟩ := List.mem_flatMap.mp member
  have byte := toNat_byte char.toNat (by omega)
  have same := toNat_of_mem_encodeChar part (by omega)
  rw [byte] at same
  rwa [← Char.ofNat_toNat char, same, Char.ofNat_toNat]

end Text.Utf8

namespace Mapping.Line

open Text

def Holds (bytes : List UInt8) (texts : List String) : Prop :=
  (ofBytes bytes).map Line.text = texts.map some

/-- The texts as lines with numbers. -/
def numbered (first : Nat) (texts : List String) : List Line :=
  (texts.zipIdx first).map fun line => ⟨line.2, some line.1⟩

theorem texts_ofBytes (bytes : List UInt8) :
    (ofBytes bytes).map Line.text =
      (split [] bytes).map fun line => (Utf8.decode? line).map String.ofList := by
  have pieces := List.zipIdx_map_fst 1 (split [] bytes)
  conv_rhs => rw [← pieces, List.map_map]
  rw [ofBytes, List.map_map]
  rfl

theorem Holds.ofBytes_eq {bytes : List UInt8} {texts : List String} (holds : Holds bytes texts) :
    ofBytes bytes = numbered 1 texts := by
  have listed : ofBytes bytes =
      (((ofBytes bytes).map Line.text).zipIdx 1).map fun line => ⟨line.2, line.1⟩ := by
    rw [texts_ofBytes, List.zipIdx_map, List.map_map]
    rfl
  unfold Holds at holds
  rw [listed, holds, List.zipIdx_map, List.map_map]
  rfl

theorem numbered_cons (first : Nat) (text : String) (texts : List String) :
    numbered first (text :: texts) = ⟨first, some text⟩ :: numbered (first + 1) texts := rfl

theorem numbers_ofBytes (bytes : List UInt8) :
    (ofBytes bytes).map Line.number = List.range' 1 (ofBytes bytes).length := by
  simp [ofBytes, Function.comp_def, List.zipIdx_map_snd]

/-- UTF-8 with a line feed behind each text. -/
def write (texts : List String) : List UInt8 :=
  texts.flatMap fun text => text.toList.flatMap String.utf8EncodeChar ++ [0x0A]

theorem split_append {front : List UInt8} (free : 0x0A ∉ front) (pending rest : List UInt8) :
    split pending (front ++ rest) = split (front.reverse ++ pending) rest := by
  induction front generalizing pending with
  | nil => rfl
  | cons byte more ih =>
      rw [List.mem_cons, not_or] at free
      have other : ¬ byte = 0x0A := fun same => free.1 same.symm
      rw [List.cons_append, split, if_neg other, ih free.2]
      simp

theorem finish_reverse {front : List UInt8} (plain : front.getLast? ≠ some 0x0D) :
    finish front.reverse = front := by
  unfold finish
  split
  · rename_i pending same
    have reversed : front = pending.reverse ++ [0x0D] := by
      simpa using congrArg List.reverse same
    simp [reversed] at plain
  · simp

theorem getLast?_encode {text : String} (plain : text.toList.getLast? ≠ some '\r') :
    (text.toList.flatMap String.utf8EncodeChar).getLast? ≠ some 0x0D := by
  -- the last byte belongs to the last character, and as it is below `80` it stands for that alone
  cases chars : text.toList using List.reverseRecOn with
  | nil => simp
  | append_singleton front char =>
      rw [chars, List.getLast?_concat] at plain
      intro last
      rw [List.flatMap_append, List.flatMap_singleton,
        List.getLast?_append_of_ne_nil _ String.utf8EncodeChar_ne_nil] at last
      have member := Utf8.mem_of_mem_encode (by decide : '\r'.toNat < 0x80)
        (by simpa using List.mem_of_getLast? last : _ ∈ [char].flatMap String.utf8EncodeChar)
      exact plain (by rw [List.mem_singleton.mp member])

/-- A text that can be a line: nothing in it ends a line or belongs to the end of one. -/
def OneLine (text : String) : Prop := '\n' ∉ text.toList ∧ text.toList.getLast? ≠ some '\r'

instance (text : String) : Decidable (OneLine text) := inferInstanceAs (Decidable (_ ∧ _))

theorem split_write {texts : List String} (single : ∀ text ∈ texts, OneLine text) :
    split [] (write texts) = texts.map fun text => text.toList.flatMap String.utf8EncodeChar := by
  induction texts with
  | nil => rfl
  | cons text rest ih =>
      obtain ⟨⟨free, plain⟩, others⟩ := List.forall_mem_cons.mp single
      have noFeed : 0x0A ∉ text.toList.flatMap String.utf8EncodeChar := fun member =>
        free (Utf8.mem_of_mem_encode (by decide : '\n'.toNat < 0x80) member)
      have later := ih others
      unfold write at later ⊢
      rw [List.flatMap_cons, List.append_assoc, split_append noFeed, List.append_nil,
        List.singleton_append, split, if_pos rfl, finish_reverse (getLast?_encode plain), later,
        List.map_cons]

/-- Texts that are written are the lines that are read. -/
theorem holds_write {texts : List String} (single : ∀ text ∈ texts, OneLine text) :
    Holds (write texts) texts := by
  rw [Holds, texts_ofBytes, split_write single, List.map_map]
  refine List.map_congr_left fun text _ => ?_
  simp [Utf8.decode?_encode]

end Mapping.Line

end Deobfuscation
