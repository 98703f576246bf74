import Deobfuscation.Proofs.Runs
import Deobfuscation.Proofs.TextRoundTrip

/-!
Every text has one written form. Bytes that are read as a text are those that are written for it,
unless one of them is never written: zero, or a byte from the first byte of four on. Either way of
reading gives back what was written, so it does not matter which one the bytes were read in.
-/

namespace Deobfuscation.Text.ModifiedUtf8

/-- No byte is zero or starts a sequence of four, and none is above those. -/
def Plain (bytes : List UInt8) : Prop := ∀ byte ∈ bytes, byte ≠ 0 ∧ byte < 0xF0

instance (bytes : List UInt8) : Decidable (Plain bytes) :=
  List.decidableBAll _ bytes

theorem plain_behind (front : List UInt8) {rest : List UInt8} (plain : Plain (front ++ rest)) :
    Plain rest := (List.forall_mem_append.mp plain).2

theorem Plain.head {first : UInt8} {rest : List UInt8} (plain : Plain (first :: rest)) :
    first.toNat ≠ 0 ∧ first.toNat < 0xF0 := by
  obtain ⟨nonzero, low⟩ := plain first List.mem_cons_self
  exact ⟨fun zero => nonzero (UInt8.toNat_inj.mp zero), UInt8.lt_iff_toNat_lt.mp low⟩

section Sequences

variable {first second third : UInt8}

theorem unitBytes_ascii (nonzero : first.toNat ≠ 0) (small : first.toNat < 0x80) :
    unitBytes first.toNat = [first] := by
  simp [unitBytes, nonzero, small]

theorem unitBytes_pairValue (sequence : Utf8.isPair first second = true) :
    unitBytes (Utf8.pairValue first second) = [first, second] ∧
      Utf8.pairValue first second < 0xD800 := by
  simp only [Utf8.isPair, Utf8.isTail, Bool.and_eq_true, decide_eq_true_eq] at sequence
  unfold Utf8.pairValue
  constructor
  · rw [unitBytes_two (by omega) (by omega), ofNat_eq first (by omega),
      ofNat_eq second (by omega)]
  · omega

theorem unitBytes_tripleValue (sequence : Utf8.isTripleUnit first second third = true) :
    unitBytes (Utf8.tripleValue first second third) = [first, second, third] ∧
      Utf8.tripleValue first second third < 0x10000 := by
  simp only [Utf8.isTripleUnit, Utf8.isTail, Bool.and_eq_true, Bool.or_eq_true,
    decide_eq_true_eq] at sequence
  unfold Utf8.tripleValue
  constructor
  · rw [unitBytes_three (by omega), ofNat_eq first (by omega),
      ofNat_eq second (by omega), ofNat_eq third (by omega)]
  · omega

end Sequences

section Units

structure UnitsOf (bytes : List UInt8) (values : List Nat) : Prop where
  written : values.flatMap unitBytes = bytes
  small : ∀ unit ∈ values, unit < 0x10000

theorem UnitsOf.cons {front rest : List UInt8} {values : List Nat} (others : UnitsOf rest values)
    {unit : Nat} (bytes : unitBytes unit = front) (small : unit < 0x10000) :
    UnitsOf (front ++ rest) (unit :: values) where
  written := by rw [List.flatMap_cons, bytes, others.written]
  small := List.forall_mem_cons.mpr ⟨small, others.small⟩

theorem unitsOf_of_units {offset : Nat} {bytes : List UInt8} {values : List Nat}
    (read : units offset bytes = .ok values) : UnitsOf bytes values := by
  fun_induction units offset bytes generalizing values with
  | case1 offset =>
      cases read
      exact ⟨rfl, nofun⟩
  | case3 offset first rest nonzero small ih =>
      obtain ⟨later, found, rfl⟩ := map_eq_ok.mp read
      exact (ih found).cons (unitBytes_ascii nonzero small) (by omega)
  | case5 offset first nonzero large second rest mark tail ih =>
      obtain ⟨later, found, rfl⟩ := map_eq_ok.mp read
      have zero : unitBytes 0 = [first, second] := by
        rw [← ofNat_eq first mark.symm, ← ofNat_eq second tail.symm]
        rfl
      exact (ih found).cons zero (by decide)
  | case8 offset first nonzero large second rest other tail sequence ih =>
      obtain ⟨later, found, rfl⟩ := map_eq_ok.mp read
      obtain ⟨bytes, small⟩ := unitBytes_pairValue sequence
      exact (ih found).cons bytes (by omega)
  | case11 offset first nonzero large second other tail single three third rest last sequence ih =>
      obtain ⟨later, found, rfl⟩ := map_eq_ok.mp read
      obtain ⟨bytes, small⟩ := unitBytes_tripleValue sequence
      exact (ih found).cons bytes small
  | _ => cases read

theorem charUnits_of_single {unit : Nat} (small : unit < 0x10000)
    (single : ¬ (isHigh unit || isLow unit) = true) : charUnits (Char.ofNat unit) = [unit] := by
  simp only [isHigh, isLow, Bool.or_eq_true, Bool.and_eq_true, decide_eq_true_eq] at single
  have valid : unit.isValidChar := by
    unfold Nat.isValidChar
    omega
  rw [charUnits, toNat_ofNat valid, if_pos small]

/-- Two surrogates are the units of the character that they are joined to. -/
theorem charUnits_of_surrogates {high low : Nat} (pair : (isHigh high && isLow low) = true) :
    charUnits (Char.ofNat (0x10000 + (high - 0xD800) * 0x400 + (low - 0xDC00))) = [high, low] := by
  simp only [isHigh, isLow, Bool.and_eq_true, decide_eq_true_eq] at pair
  generalize joined : 0x10000 + (high - 0xD800) * 0x400 + (low - 0xDC00) = value
  have valid : value.isValidChar := Or.inr (by omega)
  have first : 0xD800 + (value - 0x10000) / 0x400 = high := by omega
  have second : 0xDC00 + (value - 0x10000) % 0x400 = low := by omega
  rw [charUnits, toNat_ofNat valid, if_neg (by omega), first, second]

theorem flatMap_charUnits_of_join {offset : Nat} {values : List Nat} {chars : List Char}
    (small : ∀ unit ∈ values, unit < 0x10000) (joined : join offset values = .ok chars) :
    chars.flatMap charUnits = values := by
  fun_induction join offset values generalizing chars with
  | case1 offset =>
      cases joined
      rfl
  | case3 offset unit single =>
      cases joined
      rw [List.flatMap_singleton]
      exact charUnits_of_single (small unit List.mem_cons_self) single
  | case4 offset high low rest pair ih =>
      obtain ⟨later, found, rfl⟩ := map_eq_ok.mp joined
      have others : ∀ unit ∈ rest, unit < 0x10000 := fun unit member =>
        small unit (List.mem_cons_of_mem high (List.mem_cons_of_mem low member))
      rw [List.flatMap_cons, charUnits_of_surrogates pair, ih others found]
      rfl
  | case6 offset unit next rest noPair single ih =>
      obtain ⟨later, found, rfl⟩ := map_eq_ok.mp joined
      obtain ⟨first, others⟩ := List.forall_mem_cons.mp small
      rw [List.flatMap_cons, charUnits_of_single first single, ih others found]
      rfl
  | _ => cases joined

end Units

section Utf8

theorem charBytes_ofNat {value : Nat} (valid : value.isValidChar) (small : value < 0x10000) :
    charBytes (Char.ofNat value) = unitBytes value := by
  rw [charBytes, charUnits, toNat_ofNat valid, if_pos small, List.flatMap_singleton]

/-- Plain bytes have no sequences of four, so each character is one unit. -/
theorem flatMap_charBytes_of_decode? {bytes : List UInt8} {chars : List Char}
    (plain : Plain bytes) (read : Utf8.decode? bytes = some chars) :
    chars.flatMap charBytes = bytes := by
  fun_induction Utf8.decode? bytes generalizing chars with
  | case1 =>
      cases read
      rfl
  | case2 first rest small ih =>
      obtain ⟨later, found, rfl⟩ := Option.map_eq_some_iff.mp read
      have others := plain_behind [first] plain
      rw [List.flatMap_cons, charBytes_ofNat (Or.inl (by omega)) (by omega),
        unitBytes_ascii plain.head.1 small, ih others found]
      rfl
  | case4 first large second rest sequence ih =>
      obtain ⟨later, found, rfl⟩ := Option.map_eq_some_iff.mp read
      have others := plain_behind [first, second] plain
      obtain ⟨bytes, small⟩ := unitBytes_pairValue sequence
      rw [List.flatMap_cons, charBytes_ofNat (Or.inl small) (by omega), bytes, ih others found]
      rfl
  | case6 first large second single third rest sequence ih =>
      obtain ⟨later, found, rfl⟩ := Option.map_eq_some_iff.mp read
      have others := plain_behind [first, second, third] plain
      obtain ⟨bytes, small⟩ := unitBytes_tripleValue (Bool.and_eq_true_iff.mp sequence).1
      rw [List.flatMap_cons, charBytes_ofNat (tripleValue_valid sequence) small, bytes,
        ih others found]
      rfl
  | case8 first large second single third noTriple fourth rest sequence ih =>
      have low := plain.head.2
      simp only [Utf8.isQuad, Bool.and_eq_true, decide_eq_true_eq] at sequence
      omega
  | _ => cases read

end Utf8

theorem encode_of_decode {bytes : List UInt8} {text : String} (plain : Plain bytes)
    (read : decode bytes = .ok text) : encode text = bytes := by
  unfold decode at read
  split at read
  · rename_i chars found
    cases read
    rw [← flatMap_charBytes_of_decode? plain found, encode, String.toList_ofList]
    rfl
  · cases inUnits : units 0 bytes with
    | error fault =>
        rw [inUnits] at read
        cases read
    | ok values =>
        obtain ⟨written, small⟩ := unitsOf_of_units inUnits
        rw [inUnits] at read
        obtain ⟨chars, joined, rfl⟩ := map_eq_ok.mp read
        rw [← written, ← flatMap_charUnits_of_join small joined, encode, String.toList_ofList,
          List.flatMap_assoc]

theorem plain_unitBytes {unit : Nat} (small : unit < 0x10000) : Plain (unitBytes unit) := by
  -- each part of a sequence is a number of one byte within the bounds
  have part : ∀ value, 0 < value → value < 0xF0 →
      UInt8.ofNat value ≠ 0 ∧ UInt8.ofNat value < 0xF0 := by
    intro value positive low
    have same := toNat_byte value (by omega)
    refine ⟨?_, UInt8.lt_iff_toNat_lt.mpr (same.symm ▸ low)⟩
    intro zero
    rw [zero] at same
    exact absurd same (Nat.ne_of_lt positive)
  unfold unitBytes Plain
  split
  · rw [List.forall_mem_cons, List.forall_mem_singleton]
    decide
  split
  · rw [List.forall_mem_singleton]
    exact part unit (by omega) (by omega)
  split
  · rw [List.forall_mem_cons, List.forall_mem_singleton]
    exact ⟨part _ (by omega) (by omega), part _ (by omega) (by omega)⟩
  · rw [List.forall_mem_cons, List.forall_mem_cons, List.forall_mem_singleton]
    exact ⟨part _ (by omega) (by omega), part _ (by omega) (by omega),
      part _ (by omega) (by omega)⟩

theorem plain_encode (text : String) : Plain (encode text) := by
  intro byte member
  obtain ⟨char, -, ofChar⟩ := List.mem_flatMap.mp member
  obtain ⟨unit, part, ofUnit⟩ := List.mem_flatMap.mp ofChar
  exact plain_unitBytes (charUnits_lt char unit part) byte ofUnit

/-- A text is read back from its bytes. Bytes that are read as a text are the bytes of this text
exactly if they are plain. -/
theorem encode_inverse :
    (∀ text, decode (encode text) = .ok text) ∧
      ∀ bytes text, decode bytes = .ok text → (encode text = bytes ↔ Plain bytes) := by
  refine ⟨decode_encode, ?_⟩
  intro bytes text read
  constructor
  · rintro rfl
    exact plain_encode text
  · intro plain
    exact encode_of_decode plain read

/-- Units of one, two and three bytes beside a zero and a pair of surrogates. A zero that is
written as such is read too, but no text is written with it. -/
theorem encode_inverse_mixed :
    let bytes : List UInt8 :=
      [0x61, 0xC0, 0x80, 0xED, 0xA0, 0xBD, 0xED, 0xB8, 0x80, 0xE2, 0x98, 0x83, 0xC3, 0xA9]
    (decode bytes = .ok "a\x00😀☃é" ∧ Plain bytes ∧ encode "a\x00😀☃é" = bytes) ∧
      decode [0x61, 0x00] = .ok "a\x00" ∧ ¬ Plain [0x61, 0x00] ∧ encode "a\x00" ≠ [0x61, 0x00] := by
  intro bytes
  obtain ⟨-, written⟩ := encode_inverse
  have mixed : decode bytes = .ok "a\x00😀☃é" := rfl
  have plain : Plain bytes := by decide
  have zero : decode [0x61, 0x00] = .ok "a\x00" := rfl
  have marked : ¬ Plain [0x61, 0x00] := by decide
  exact ⟨⟨mixed, plain, (written bytes _ mixed).mpr plain⟩, zero, marked,
    fun same => marked ((written _ _ zero).mp same)⟩

end Deobfuscation.Text.ModifiedUtf8
