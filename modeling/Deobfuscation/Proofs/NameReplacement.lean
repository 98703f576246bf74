import Deobfuscation.Proofs.GenericSignature

/-!
Class names in texts of any kind, also in texts that are no signatures. A replacement can add
ends of names to a text and never takes one away. Main statement: mapping replaces every class
name, and it says that the text changes exactly if the result is another text. Several
replacements never cancel out.
-/

namespace Deobfuscation.Signature

section Scan

theorem scan_nameless {text : List Char} (plain : 'L' ∉ text) :
    scan none text = text.map .plain := by
  have copied := scan_plain plain []
  simpa [scan] using copied

/-- A name that never ends is no name. -/
theorem scan_endless {before name : List Char} (plain : 'L' ∉ before) (unbroken : Unbroken name) :
    scan none (before ++ 'L' :: name) = (before ++ 'L' :: name).map .plain := by
  have pending := scan_unbroken unbroken [] []
  simp only [List.append_nil] at pending
  simp [scan_plain plain, scan, pending]

theorem scan_name {before name : List Char} {stop : Char} (plain : 'L' ∉ before)
    (unbroken : Unbroken name) (ends : endsName stop = true) (rest : List Char) :
    scan none (before ++ 'L' :: (name ++ stop :: rest)) =
      before.map .plain ++
        .plain 'L' :: .name (String.ofList name) :: .plain stop :: scan none rest := by
  simp [scan_plain plain, scan, scan_unbroken unbroken, ends]

theorem mem_scan_name {before name : List Char} {stop : Char} (plain : 'L' ∉ before)
    (unbroken : Unbroken name) (ends : endsName stop = true) {rest : List Char} {other : String} :
    .name other ∈ scan none (before ++ 'L' :: (name ++ stop :: rest)) ↔
      other = String.ofList name ∨ .name other ∈ scan none rest := by
  simp [scan_name plain unbroken ends]

theorem unbroken_or_stop (chars : List Char) :
    Unbroken chars ∨
      ∃ name stop rest, chars = name ++ stop :: rest ∧ Unbroken name ∧ endsName stop = true := by
  induction chars with
  | nil => exact Or.inl (by simp [Unbroken])
  | cons char more ih =>
      by_cases ends : endsName char = true
      · exact Or.inr ⟨[], char, more, rfl, by simp [Unbroken], ends⟩
      · have here : endsName char = false := by simpa using ends
        rcases ih with unbroken | ⟨name, stop, rest, rfl, unbroken, stops⟩
        · exact Or.inl (List.forall_mem_cons.mpr ⟨here, unbroken⟩)
        · exact Or.inr ⟨char :: name, stop, rest, rfl,
            List.forall_mem_cons.mpr ⟨here, unbroken⟩, stops⟩

end Scan

section Replacement

/-- The second text is the first one with its class names replaced. A name begins behind an `L`
and ends before the next `;`, `<` or `.`, and the next name is looked for behind that. -/
inductive Replaced (names : String → String) : List Char → List Char → Prop where
  | nameless {text : List Char} : 'L' ∉ text → Replaced names text text
  | endless {before name : List Char} : 'L' ∉ before → Unbroken name →
      Replaced names (before ++ 'L' :: name) (before ++ 'L' :: name)
  | name {before name rest result : List Char} {stop : Char} : 'L' ∉ before → Unbroken name →
      endsName stop = true → Replaced names rest result →
      Replaced names (before ++ 'L' :: (name ++ stop :: rest))
        (before ++ 'L' :: ((names (String.ofList name)).toList ++ stop :: result))

variable {names : String → String} {text result : List Char}

theorem exists_replaced (names : String → String) (text : List Char) :
    ∃ result, Replaced names text result := by
  by_cases letter : 'L' ∈ text
  · obtain ⟨before, after, split, plain⟩ := List.eq_append_cons_of_mem letter
    rcases unbroken_or_stop after with unbroken | ⟨name, stop, rest, stopped, unbroken, ends⟩
    · rw [split]
      exact ⟨_, .endless plain unbroken⟩
    · have shorter : rest.length < text.length := by
        simp only [split, stopped, List.length_append, List.length_cons]
        omega
      obtain ⟨result, replaced⟩ := exists_replaced names rest
      rw [split, stopped]
      exact ⟨_, .name plain unbroken ends replaced⟩
  · exact ⟨text, .nameless letter⟩
termination_by text.length

theorem Replaced.eq_mappedFrom (replaced : Replaced names text result) :
    result = mappedFrom names none text := by
  induction replaced with
  | nameless plain =>
      simp [mappedFrom, scan_nameless plain, Segment.rename, Segment.chars, List.flatMap_map]
  | endless plain unbroken =>
      simp [mappedFrom, scan_endless plain unbroken, Segment.rename, Segment.chars,
        List.flatMap_map]
  | name plain unbroken ends _ ih =>
      simp [mappedFrom, scan_name plain unbroken ends, Segment.rename, Segment.chars,
        List.flatMap_map, ih]

theorem replaced_iff : Replaced names text result ↔ result = mappedFrom names none text := by
  constructor
  · exact Replaced.eq_mappedFrom
  · rintro rfl
    obtain ⟨other, replaced⟩ := exists_replaced names text
    exact replaced.eq_mappedFrom ▸ replaced

end Replacement

section Counting

variable {names : String → String} {text result : List Char}

theorem countP_eq_zero_iff {chars : List Char} : chars.countP endsName = 0 ↔ Unbroken chars := by
  simp [Unbroken, List.countP_eq_zero]

theorem Replaced.countP_le (replaced : Replaced names text result) :
    text.countP endsName ≤ result.countP endsName := by
  induction replaced with
  | nameless plain => exact Nat.le_refl _
  | endless plain unbroken => exact Nat.le_refl _
  | name plain unbroken ends _ ih =>
      have none := countP_eq_zero_iff.mpr unbroken
      simp only [List.countP_append, List.countP_cons, none]
      omega

/-- A text stays as it is only if every name does. -/
theorem Replaced.eq_self_iff (replaced : Replaced names text result) :
    result = text ↔ ∀ name, .name name ∈ scan none text → names name = name := by
  induction replaced with
  | nameless plain => simp [scan_nameless plain]
  | endless plain unbroken => simp [scan_endless plain unbroken]
  | @name before name rest result stop plain unbroken ends replaced ih =>
      simp only [mem_scan_name plain unbroken ends, forall_eq_or_imp, ← ih]
      constructor
      · intro same
        have behind := (List.cons.inj (List.append_cancel_left same)).2
        have counted := congrArg (List.countP endsName) behind
        have fewer := replaced.countP_le
        have none := countP_eq_zero_iff.mpr unbroken
        simp only [List.countP_append, List.countP_cons, none] at counted
        -- what follows has not lost an end, so an end in the new name would be one too many
        have whole := countP_eq_zero_iff.mp (by omega :
          (names (String.ofList name)).toList.countP endsName = 0)
        obtain ⟨kept, rests⟩ := parts_of_append_eq ends whole unbroken behind
        exact ⟨String.toList_inj.mp (by simpa using kept), rests⟩
      · rintro ⟨kept, rfl⟩
        simp [kept]

theorem changes_eq_true_iff {names : Table String String} {signature : String} :
    changes names signature = true ↔
      ∃ name, .name name ∈ segments signature ∧ renamed names name ≠ name := by
  simp only [changes, List.any_eq_true]
  constructor
  · rintro ⟨piece, member, changed⟩
    cases piece with
    | plain char => cases changed
    | name text => exact ⟨text, member, by simpa using changed⟩
  · rintro ⟨name, member, changed⟩
    exact ⟨.name name, member, by simpa using changed⟩

/-- Mapping gives the text with every class name replaced, whatever the names in the table are.
It says that it changes the text exactly if this is another text, so a caller that keeps its own
text otherwise has the replaced one in every case. -/
theorem map_replaces_and_tells (names : Table String String) (signature : String) :
    (∀ result, Replaced (fun name => (names.get? name).getD name) signature.toList result ↔
      result = (map names signature).toList) ∧
    (changes names signature = true ↔ map names signature ≠ signature) ∧
    (if changes names signature then map names signature else signature) =
      map names signature := by
  have replaced : ∀ result,
      Replaced (fun name => (names.get? name).getD name) signature.toList result ↔
        result = (map names signature).toList := by
    intro result
    rw [toList_map]
    exact replaced_iff
  have told : changes names signature = true ↔ map names signature ≠ signature := by
    rw [changes_eq_true_iff, ne_eq, ← String.toList_inj, ((replaced _).mpr rfl).eq_self_iff]
    simp [segments, renamed]
  refine ⟨replaced, told, ?_⟩
  split
  · rfl
  · rename_i same
    exact (Classical.not_not.mp (mt told.mpr same)).symm

/-- The first name grows to what looks like two, the second one vanishes, and the last one does not
end. -/
theorem map_replaces_and_tells_growing :
    let names := Table.ofList [("a", "a;Lb"), ("b", "")]
    map names "La<Lb;>Lc.b;La" = "La;Lb<L;>Lc.b;La" ∧
      Replaced (fun name => (names.get? name).getD name) "La<Lb;>Lc.b;La".toList
        "La;Lb<L;>Lc.b;La".toList ∧
      changes names "La<Lb;>Lc.b;La" = true ∧
      map names "Lc.b;La" = "Lc.b;La" ∧ changes names "Lc.b;La" = false := by
  intro names
  have grown : map names "La<Lb;>Lc.b;La" = "La;Lb<L;>Lc.b;La" := by decide +kernel
  have kept : map names "Lc.b;La" = "Lc.b;La" := by decide +kernel
  obtain ⟨replaced, told, -⟩ := map_replaces_and_tells names "La<Lb;>Lc.b;La"
  obtain ⟨-, silent, -⟩ := map_replaces_and_tells names "Lc.b;La"
  refine ⟨grown, (replaced _).mpr (congrArg String.toList grown.symm), told.mpr ?_, kept, ?_⟩
  · rw [grown]
    decide
  · rw [← Bool.not_eq_true, silent]
    exact fun different => different kept

end Counting

end Deobfuscation.Signature
