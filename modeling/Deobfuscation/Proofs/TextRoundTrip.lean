import Deobfuscation.Text.ModifiedUtf8

/-!
What is written as the bytes of a constant is read back as the same text. Reading
tries plain UTF-8 first, so two facts are needed: bytes that happen to be UTF-8 stand
for the text that was written, and all other bytes are read unit by unit.
-/

namespace Deobfuscation.Text.ModifiedUtf8

def charBytes (char : Char) : List UInt8 := (charUnits char).flatMap unitBytes

theorem toNat_byte (value : Nat) (small : value < 0x100) :
    (UInt8.ofNat value).toNat = value := UInt8.toNat_ofNat_of_lt' small

theorem char_range (char : Char) :
    char.toNat < 0xD800 ∨ 0xDFFF < char.toNat ∧ char.toNat < 0x110000 :=
  char.valid

theorem toNat_ofNat {value : Nat} (valid : value.isValidChar) :
    (Char.ofNat value).toNat = value := by
  unfold Char.ofNat
  rw [dif_pos valid]
  rfl

theorem ofNat_eq (byte : UInt8) {value : Nat} (same : value = byte.toNat) :
    UInt8.ofNat value = byte := by
  rw [same, UInt8.ofNat_toNat]

section Sequences

theorem units_ascii (offset : Nat) (first : UInt8) (rest : List UInt8)
    (nonzero : first.toNat ≠ 0) (small : first.toNat < 0x80) :
    units offset (first :: rest) = (units (offset + 1) rest).map (first.toNat :: ·) := by
  rw [units.eq_def]
  simp [nonzero, small]

theorem units_zero (offset : Nat) (rest : List UInt8) :
    units offset (0xC0 :: 0x80 :: rest) = (units (offset + 2) rest).map (0 :: ·) := by
  rw [units.eq_def]
  simp

theorem units_pair (offset : Nat) (first second : UInt8) (rest : List UInt8)
    (sequence : Utf8.isPair first second = true) :
    units offset (first :: second :: rest) =
      (units (offset + 2) rest).map (Utf8.pairValue first second :: ·) := by
  have parts := sequence
  simp only [Utf8.isPair, Bool.and_eq_true, decide_eq_true_eq] at parts
  have notZero : first.toNat ≠ 0 := by omega
  have notAscii : ¬ first.toNat < 0x80 := by omega
  have notMark : first.toNat ≠ 0xC0 := by omega
  rw [units.eq_def]
  simp [notZero, notAscii, notMark, parts.2, sequence]

theorem units_triple (offset : Nat) (first second third : UInt8) (rest : List UInt8)
    (sequence : Utf8.isTripleUnit first second third = true) :
    units offset (first :: second :: third :: rest) =
      (units (offset + 3) rest).map (Utf8.tripleValue first second third :: ·) := by
  have parts := sequence
  simp only [Utf8.isTripleUnit, Bool.and_eq_true, decide_eq_true_eq] at parts
  obtain ⟨⟨⟨⟨low, high⟩, secondTail⟩, thirdTail⟩, -⟩ := parts
  have notZero : first.toNat ≠ 0 := by omega
  have notAscii : ¬ first.toNat < 0x80 := by omega
  have notMark : first.toNat ≠ 0xC0 := by omega
  have notPair : Utf8.isPair first second = false := by
    simp only [Utf8.isPair, Bool.and_eq_false_iff, decide_eq_false_iff_not]
    omega
  rw [units.eq_def]
  simp [notZero, notAscii, notMark, secondTail, notPair, low, high, thirdTail, sequence]

theorem decode?_ascii (first : UInt8) (rest : List UInt8) (small : first.toNat < 0x80) :
    Utf8.decode? (first :: rest) =
      (Utf8.decode? rest).map (Char.ofNat first.toNat :: ·) := by
  rw [Utf8.decode?.eq_def]
  simp [small]

theorem decode?_pair (first second : UInt8) (rest : List UInt8)
    (sequence : Utf8.isPair first second = true) :
    Utf8.decode? (first :: second :: rest) =
      (Utf8.decode? rest).map (Char.ofNat (Utf8.pairValue first second) :: ·) := by
  have parts := sequence
  simp only [Utf8.isPair, Bool.and_eq_true, decide_eq_true_eq] at parts
  have notAscii : ¬ first.toNat < 0x80 := by omega
  rw [Utf8.decode?.eq_def]
  simp [notAscii, sequence]

theorem decode?_triple (first second third : UInt8) (rest : List UInt8)
    (sequence : Utf8.isTriple first second third = true) :
    Utf8.decode? (first :: second :: third :: rest) =
      (Utf8.decode? rest).map (Char.ofNat (Utf8.tripleValue first second third) :: ·) := by
  have parts := sequence
  simp only [Utf8.isTriple, Utf8.isTripleUnit, Bool.and_eq_true, decide_eq_true_eq] at parts
  have notAscii : ¬ first.toNat < 0x80 := by omega
  have notPair : Utf8.isPair first second = false := by
    simp only [Utf8.isPair, Bool.and_eq_false_iff, decide_eq_false_iff_not]
    omega
  rw [Utf8.decode?.eq_def]
  simp [notAscii, notPair, sequence]

theorem decode?_zero (rest : List UInt8) : Utf8.decode? (0xC0 :: 0x80 :: rest) = none := by
  rw [Utf8.decode?.eq_def]
  cases rest with
  | nil => simp [Utf8.isPair]
  | cons third rest =>
      cases rest with
      | nil => simp [Utf8.isPair, Utf8.isTriple, Utf8.isTripleUnit]
      | cons fourth rest => simp [Utf8.isPair, Utf8.isTriple, Utf8.isTripleUnit, Utf8.isQuad]

theorem decode?_surrogate (first second third : UInt8) (rest : List UInt8)
    (start : first.toNat = 0xED) (high : 0xA0 ≤ second.toNat) :
    Utf8.decode? (first :: second :: third :: rest) = none := by
  have noLow : ¬ second.toNat < 0xA0 := by omega
  rw [Utf8.decode?.eq_def]
  cases rest with
  | nil => simp [Utf8.isPair, Utf8.isTriple, start, noLow]
  | cons fourth rest => simp [Utf8.isPair, Utf8.isTriple, Utf8.isQuad, start, noLow]

end Sequences

section Units

theorem unitBytes_two {unit : Nat} (low : 0x80 ≤ unit) (high : unit < 0x800) :
    unitBytes unit =
      [UInt8.ofNat (0xC0 + unit / 0x40), UInt8.ofNat (0x80 + unit % 0x40)] := by
  have notZero : ¬ unit = 0 := by omega
  have notOne : ¬ unit < 0x80 := by omega
  simp only [unitBytes, notZero, notOne, high, if_true, if_false]

theorem unitBytes_three {unit : Nat} (low : 0x800 ≤ unit) :
    unitBytes unit = [UInt8.ofNat (0xE0 + unit / 0x1000),
      UInt8.ofNat (0x80 + unit / 0x40 % 0x40), UInt8.ofNat (0x80 + unit % 0x40)] := by
  have notZero : ¬ unit = 0 := by omega
  have notOne : ¬ unit < 0x80 := by omega
  have notTwo : ¬ unit < 0x800 := by omega
  simp only [unitBytes, notZero, notOne, notTwo, if_false]

theorem pair_bytes {unit : Nat} {first second : UInt8}
    (firstByte : first.toNat = 0xC0 + unit / 0x40)
    (secondByte : second.toNat = 0x80 + unit % 0x40)
    (low : 0x80 ≤ unit) (high : unit < 0x800) :
    Utf8.isPair first second = true ∧ Utf8.pairValue first second = unit := by
  constructor
  · simp only [Utf8.isPair, Utf8.isTail, Bool.and_eq_true, decide_eq_true_eq]
    omega
  · unfold Utf8.pairValue
    omega

/-- The three bytes of a unit are one sequence with its value. It stands for a character unless
the unit is a surrogate. -/
theorem triple_bytes {unit : Nat} {first second third : UInt8}
    (firstByte : first.toNat = 0xE0 + unit / 0x1000)
    (secondByte : second.toNat = 0x80 + unit / 0x40 % 0x40)
    (thirdByte : third.toNat = 0x80 + unit % 0x40)
    (low : 0x800 ≤ unit) (high : unit < 0x10000) :
    Utf8.isTripleUnit first second third = true ∧ Utf8.tripleValue first second third = unit ∧
      (unit < 0xD800 ∨ 0xDFFF < unit → Utf8.isTriple first second third = true) := by
  have sequence : Utf8.isTripleUnit first second third = true := by
    simp only [Utf8.isTripleUnit, Utf8.isTail, Bool.and_eq_true, Bool.or_eq_true,
      decide_eq_true_eq]
    omega
  refine ⟨sequence, ?_, ?_⟩
  · unfold Utf8.tripleValue
    omega
  · intro plain
    have digits : unit / 0x40 / 0x40 = unit / 0x1000 := Nat.div_div_eq_div_mul unit 0x40 0x40
    simp only [Utf8.isTriple, sequence, Bool.true_and, Bool.or_eq_true, decide_eq_true_eq]
    omega

theorem tripleValue_valid {first second third : UInt8}
    (sequence : Utf8.isTriple first second third = true) :
    (Utf8.tripleValue first second third).isValidChar := by
  simp only [Utf8.isTriple, Utf8.isTripleUnit, Utf8.isTail, Bool.and_eq_true, Bool.or_eq_true,
    decide_eq_true_eq] at sequence
  unfold Utf8.tripleValue Nat.isValidChar
  omega

/-- The bytes of one unit are read as this unit, whatever follows. -/
theorem units_unitBytes (offset unit : Nat) (rest : List UInt8) (fits : unit < 0x10000) :
    units offset (unitBytes unit ++ rest) =
      (units (offset + (unitBytes unit).length) rest).map (unit :: ·) := by
  by_cases zero : unit = 0
  · subst zero
    exact units_zero offset rest
  by_cases one : unit < 0x80
  · have value := toNat_byte unit (Nat.lt_trans one (by decide))
    have read := units_ascii offset (UInt8.ofNat unit) rest (value.symm ▸ zero) (value.symm ▸ one)
    rw [value] at read
    have bytes : unitBytes unit = [UInt8.ofNat unit] := by
      simp only [unitBytes, zero, one, if_true, if_false]
    rw [bytes]
    exact read
  by_cases two : unit < 0x800
  · obtain ⟨sequence, value⟩ := pair_bytes (toNat_byte _ (by omega)) (toNat_byte _ (by omega))
      (Nat.le_of_not_lt one) two
    have read := units_pair offset _ _ rest sequence
    rw [value] at read
    rw [unitBytes_two (Nat.le_of_not_lt one) two]
    exact read
  · obtain ⟨sequence, value, -⟩ := triple_bytes (toNat_byte _ (by omega))
      (toNat_byte _ (by omega)) (toNat_byte _ (by omega)) (Nat.le_of_not_lt two) fits
    have read := units_triple offset _ _ _ rest sequence
    rw [value] at read
    rw [unitBytes_three (Nat.le_of_not_lt two)]
    exact read

/-- The bytes of a unit that is a character and not zero are its UTF-8. -/
theorem decode?_unitBytes (unit : Nat) (rest : List UInt8) (nonzero : unit ≠ 0)
    (plain : unit < 0xD800 ∨ 0xDFFF < unit) (fits : unit < 0x10000) :
    Utf8.decode? (unitBytes unit ++ rest) =
      (Utf8.decode? rest).map (Char.ofNat unit :: ·) := by
  by_cases one : unit < 0x80
  · have value := toNat_byte unit (Nat.lt_trans one (by decide))
    have read := decode?_ascii (UInt8.ofNat unit) rest (value.symm ▸ one)
    rw [value] at read
    have bytes : unitBytes unit = [UInt8.ofNat unit] := by
      simp only [unitBytes, nonzero, one, if_true, if_false]
    rw [bytes]
    exact read
  by_cases two : unit < 0x800
  · obtain ⟨sequence, value⟩ := pair_bytes (toNat_byte _ (by omega)) (toNat_byte _ (by omega))
      (Nat.le_of_not_lt one) two
    have read := decode?_pair _ _ rest sequence
    rw [value] at read
    rw [unitBytes_two (Nat.le_of_not_lt one) two]
    exact read
  · obtain ⟨-, value, triple⟩ := triple_bytes (toNat_byte _ (by omega))
      (toNat_byte _ (by omega)) (toNat_byte _ (by omega)) (Nat.le_of_not_lt two) fits
    have read := decode?_triple _ _ _ rest (triple plain)
    rw [value] at read
    rw [unitBytes_three (Nat.le_of_not_lt two)]
    exact read

theorem decode?_surrogateBytes (unit : Nat) (rest : List UInt8) (low : 0xD800 ≤ unit)
    (high : unit < 0xE000) : Utf8.decode? (unitBytes unit ++ rest) = none := by
  have start : 0xE0 + unit / 0x1000 = 0xED := by omega
  have second : 0x80 + unit / 0x40 % 0x40 < 0x100 := by omega
  have above : 0xA0 ≤ 0x80 + unit / 0x40 % 0x40 := by omega
  rw [unitBytes_three (Nat.le_trans (by decide) low), start]
  apply decode?_surrogate
  · rfl
  · rw [toNat_byte _ second]
    exact above

theorem charUnits_lt (char : Char) : ∀ unit ∈ charUnits char, unit < 0x10000 := by
  intro unit member
  have range := char_range char
  unfold charUnits at member
  split at member
  · have same : unit = char.toNat := by simpa using member
    omega
  · simp only [List.mem_cons, List.not_mem_nil, or_false] at member
    rcases member with high | low <;> omega

theorem units_flatMap (values : List Nat) (fits : ∀ unit ∈ values, unit < 0x10000)
    (offset : Nat) : units offset (values.flatMap unitBytes) = .ok values := by
  induction values generalizing offset with
  | nil => rfl
  | cons unit rest ih =>
      have head := fits unit List.mem_cons_self
      have tail := ih (fun other member => fits other (List.mem_cons_of_mem unit member))
      rw [List.flatMap_cons, units_unitBytes offset unit _ head, tail]
      rfl

end Units

section Characters

theorem join_charUnits (offset : Nat) (char : Char) (rest : List Nat) :
    ∃ next, join offset (charUnits char ++ rest) = (join next rest).map (char :: ·) := by
  have range := char_range char
  unfold charUnits
  split
  · have notHigh : isHigh char.toNat = false := by
      simp only [isHigh, Bool.and_eq_false_iff, decide_eq_false_iff_not]
      omega
    have notLow : isLow char.toNat = false := by
      simp only [isLow, Bool.and_eq_false_iff, decide_eq_false_iff_not]
      omega
    cases rest with
    | nil => exact ⟨offset, by simp [join, notHigh, notLow, Except.map]⟩
    | cons next rest =>
        exact ⟨offset + Utf8.width char, by simp [join, notHigh, notLow]⟩
  · have high : isHigh (0xD800 + (char.toNat - 0x10000) / 0x400) = true := by
      simp only [isHigh, Bool.and_eq_true, decide_eq_true_eq]
      omega
    have low : isLow (0xDC00 + (char.toNat - 0x10000) % 0x400) = true := by
      simp only [isLow, Bool.and_eq_true, decide_eq_true_eq]
      omega
    have value : 0x10000 + (0xD800 + (char.toNat - 0x10000) / 0x400 - 0xD800) * 0x400 +
        (0xDC00 + (char.toNat - 0x10000) % 0x400 - 0xDC00) = char.toNat := by
      omega
    refine ⟨offset + 4, ?_⟩
    simp only [List.cons_append, List.nil_append, join, high, low, Bool.and_self, if_true, value,
      Char.ofNat_toNat]

theorem join_flatMap (chars : List Char) (offset : Nat) :
    join offset (chars.flatMap charUnits) = .ok chars := by
  induction chars generalizing offset with
  | nil => rfl
  | cons char rest ih =>
      obtain ⟨next, joined⟩ := join_charUnits offset char (rest.flatMap charUnits)
      rw [List.flatMap_cons, joined, ih next]
      rfl

/-- The bytes of one character are its UTF-8 or no UTF-8 at all. -/
theorem decode?_charBytes (char : Char) (rest : List UInt8) :
    Utf8.decode? (charBytes char ++ rest) = none ∨
      Utf8.decode? (charBytes char ++ rest) = (Utf8.decode? rest).map (char :: ·) := by
  have range := char_range char
  by_cases small : char.toNat < 0x10000
  · have bytes : charBytes char = unitBytes char.toNat := by
      simp [charBytes, charUnits, small]
    rw [bytes]
    by_cases zero : char.toNat = 0
    · rw [zero]
      exact Or.inl (decode?_zero rest)
    · have read := decode?_unitBytes char.toNat rest zero (by omega) small
      rw [Char.ofNat_toNat] at read
      exact Or.inr read
  · -- the first of two units is a high surrogate, which has no place in UTF-8
    have bytes : charBytes char = unitBytes (0xD800 + (char.toNat - 0x10000) / 0x400) ++
        unitBytes (0xDC00 + (char.toNat - 0x10000) % 0x400) := by
      simp [charBytes, charUnits, small]
    rw [bytes, List.append_assoc]
    exact Or.inl (decode?_surrogateBytes _ _ (by omega) (by omega))

theorem decode?_flatMap (chars : List Char) :
    Utf8.decode? (chars.flatMap charBytes) = none ∨
      Utf8.decode? (chars.flatMap charBytes) = some chars := by
  induction chars with
  | nil => exact Or.inr rfl
  | cons char rest ih =>
      rw [List.flatMap_cons]
      rcases decode?_charBytes char (rest.flatMap charBytes) with refused | read
      · exact Or.inl refused
      · rcases ih with refused | whole
        · exact Or.inl (by rw [read, refused]; rfl)
        · exact Or.inr (by rw [read, whole]; rfl)

end Characters

/-- Every text is read back from its bytes. -/
theorem decode_encode (text : String) : decode (encode text) = .ok text := by
  have written : encode text = text.toList.flatMap charBytes := rfl
  unfold decode
  rcases decode?_flatMap text.toList with refused | read
  · have inUnits : encode text = (text.toList.flatMap charUnits).flatMap unitBytes := by
      rw [List.flatMap_assoc]
      rfl
    have fits : ∀ unit ∈ text.toList.flatMap charUnits, unit < 0x10000 := by
      intro unit member
      obtain ⟨char, -, part⟩ := List.mem_flatMap.mp member
      exact charUnits_lt char unit part
    have readUnits := units_flatMap (text.toList.flatMap charUnits) fits 0
    rw [written, refused, ← written, inUnits, readUnits]
    simp [bind, Except.bind, pure, Except.pure, join_flatMap]
  · rw [written, read]
    simp

end Deobfuscation.Text.ModifiedUtf8
