import Deobfuscation.Proofs.ProguardReading

/-!
The forms of a line of the Proguard dialect. What a method line says leaves out the range of line
numbers before it, and a form keeps it, so a form is all that a line is made of. Main statement:
the three readers accept exactly the lines that have a form of their kind, tell the names and
the descriptor in it, and no line has two forms.
-/

namespace Deobfuscation.Mapping.Proguard

open Text

/-- A line by its pieces. -/
inductive Form where
  | ofClass (line : ClassLine)
  | ofField (line : FieldLine)
  | ofMethod (range : Option (String × String)) (line : MethodLine)

/-- The line numbers before a method, with a colon behind each. -/
def rangePieces : Option (String × String) → List String
  | none => []
  | some (start, stop) => [start, ":", stop, ":"]

def IsNumbered (range : Option (String × String)) : Prop :=
  ∀ pair ∈ range, isNumber pair.1.toList = true ∧ isNumber pair.2.toList = true

namespace Form

def pieces : Form → List String
  | .ofClass line => [line.original, " -> ", line.obfuscated, ":"]
  | .ofField line => ["    ", line.type, " ", line.original, " -> ", line.obfuscated]
  | .ofMethod range line =>
      "    " :: rangePieces range ++
        [line.returned, " ", line.original, "(", ",".intercalate line.arguments, ")", " -> ",
          line.obfuscated]

/-- Names are identifiers, types are types, and line numbers are numbers. -/
def WellFormed : Form → Prop
  | .ofClass line => line.WellFormed
  | .ofField line => line.WellFormed
  | .ofMethod range line => IsNumbered range ∧ line.WellFormed

/-- The text is a well-formed line of this form. -/
def Spells (form : Form) (text : String) : Prop :=
  form.WellFormed ∧ text = String.join form.pieces

/-- What the line says. -/
def entry : Form → Entry
  | .ofClass line => .header line
  | .ofField line => .field line
  | .ofMethod _ line => .method line

def spelling : Form → List Char
  | .ofClass line => line.spelling
  | .ofField line => line.spelling
  | .ofMethod range line => line.spelling ((rangePieces range).flatMap String.toList)

theorem toList_join_pieces (form : Form) : (String.join form.pieces).toList = form.spelling := by
  rw [String.toList_join]
  cases form with
  | ofClass line => simp [pieces, spelling, ClassLine.spelling, arrow_eq]
  | ofField line => simp [pieces, spelling, FieldLine.spelling, arrow_eq, indent_eq]
  | ofMethod range line =>
      simp [pieces, spelling, MethodLine.spelling, MethodLine.body, MethodLine.signature, arrow_eq,
        indent_eq, String.toList_intercalate]

theorem spells_iff {form : Form} {text : String} :
    form.Spells text ↔ form.WellFormed ∧ text.toList = form.spelling := by
  rw [Spells, ← String.toList_inj, toList_join_pieces]

end Form

open Form

section Readers

variable {text : String}

theorem spells_class_iff {line : ClassLine} :
    (ofClass line).Spells text ↔ classLine? text = some line := by
  rw [spells_iff, classLine?_eq_some_iff]
  rfl

theorem spells_field_iff {line : FieldLine} :
    (ofField line).Spells text ↔ fieldLine? text = some line := by
  rw [spells_iff, fieldLine?_eq_some_iff]
  rfl

theorem isRange_iff {chars : List Char} :
    IsRange chars ↔
      ∃ range, IsNumbered range ∧ chars = (rangePieces range).flatMap String.toList := by
  constructor
  · intro valid
    cases valid with
    | none => exact ⟨none, by simp [IsNumbered], rfl⟩
    | @numbers start stop first second =>
        exact ⟨some (String.ofList start, String.ofList stop), by simp [IsNumbered, first, second],
          by simp [rangePieces]⟩
  · rintro ⟨range, numbered, rfl⟩
    cases range with
    | none => exact .none
    | some pair =>
        obtain ⟨first, second⟩ := numbered pair rfl
        simpa [rangePieces] using IsRange.numbers first second

theorem spells_method_iff {line : MethodLine} :
    (∃ range, (ofMethod range line).Spells text) ↔ methodLine? text = some line := by
  simp only [spells_iff, methodLine?_eq_some_iff, isRange_iff]
  constructor
  · rintro ⟨range, ⟨numbered, wellFormed⟩, whole⟩
    exact ⟨wellFormed, _, ⟨range, numbered, rfl⟩, whole⟩
  · rintro ⟨wellFormed, _, ⟨range, numbered, rfl⟩, whole⟩
    exact ⟨range, ⟨numbered, wellFormed⟩, whole⟩

theorem Form.Spells.ofText? {form : Form} (spells : form.Spells text) :
    Entry.ofText? text = some form.entry := by
  cases form with
  | ofClass line => exact ofText?_eq_header_iff.mpr (spells_class_iff.mp spells)
  | ofField line => exact ofText?_eq_field_iff.mpr (spells_field_iff.mp spells)
  | ofMethod range line =>
      exact ofText?_eq_method_iff.mpr (spells_method_iff.mp ⟨range, spells⟩)

theorem count_readers_le (text : String) :
    [(classLine? text).isSome, (fieldLine? text).isSome, (methodLine? text).isSome].count true ≤
      1 := by
  cases method : methodLine? text with
  | some line => simp [classLine?_of_methodLine? method, fieldLine?_of_methodLine? method]
  | none =>
      cases field : fieldLine? text with
      | some line => simp [classLine?_of_fieldLine? field]
      | none => cases classLine? text <;> simp

end Readers

section Uniqueness

variable {text : String}

theorem rangePieces_injOn {first second : Option (String × String)}
    (firstNumbered : IsNumbered first) (secondNumbered : IsNumbered second)
    (same : (rangePieces first).flatMap String.toList =
      (rangePieces second).flatMap String.toList) : first = second := by
  cases first with
  | none =>
      cases second with
      | none => rfl
      | some other => simp [rangePieces] at same
  | some pair =>
      cases second with
      | none => simp [rangePieces] at same
      | some other =>
          obtain ⟨start, stop⟩ := firstNumbered pair rfl
          obtain ⟨otherStart, otherStop⟩ := secondNumbered other rfl
          simp only [rangePieces, List.flatMap_cons] at same
          obtain ⟨starts, behind⟩ := pieces_eq_of_append_eq
            (not_mem_of_isNumber start (by decide)) (not_mem_of_isNumber otherStart (by decide))
            same
          obtain ⟨stops, -⟩ := pieces_eq_of_append_eq
            (not_mem_of_isNumber stop (by decide)) (not_mem_of_isNumber otherStop (by decide))
            behind
          exact congrArg some (Prod.ext (String.toList_inj.mp starts) (String.toList_inj.mp stops))

/-- A line has one form. What it says is read from it, and the range is what is left. -/
theorem Form.Spells.unique {first second : Form} (one : first.Spells text)
    (two : second.Spells text) : first = second := by
  have same : first.entry = second.entry := Option.some.inj (one.ofText?.symm.trans two.ofText?)
  -- lines of different kinds do not say the same
  cases first <;> cases second <;> cases same
  · rfl
  · rfl
  · obtain ⟨⟨numbered, -⟩, whole⟩ := spells_iff.mp one
    obtain ⟨⟨otherNumbered, -⟩, otherWhole⟩ := spells_iff.mp two
    have ranges := List.append_cancel_right (List.append_cancel_left (whole.symm.trans otherWhole))
    rw [rangePieces_injOn numbered otherNumbered ranges]

/-- What is told about a field: its names and its descriptor. -/
def FieldLine.member (line : FieldLine) : String × String × String :=
  (line.original, line.obfuscated, encodeType line.type)

def MethodLine.member (line : MethodLine) : String × String × String :=
  (line.original, line.obfuscated, line.descriptor)

theorem fieldLine?_of_member {line : FieldLine} (type : isType line.type = true)
    (told : (fieldLine? text).map FieldLine.member = some line.member) :
    fieldLine? text = some line := by
  obtain ⟨other, read, same⟩ := Option.map_eq_some_iff.mp told
  obtain ⟨⟨otherType, -⟩, -⟩ := fieldLine?_eq_some_iff.mp read
  cases other
  cases line
  simp only [FieldLine.member, Prod.mk.injEq] at same
  obtain ⟨rfl, rfl, descriptor⟩ := same
  obtain rfl := encodeType_injOn otherType type descriptor
  exact read

theorem methodLine?_of_member {line : MethodLine}
    (types : ∀ type ∈ line.returned :: line.arguments, isType type = true)
    (told : (methodLine? text).map MethodLine.member = some line.member) :
    methodLine? text = some line := by
  obtain ⟨other, read, same⟩ := Option.map_eq_some_iff.mp told
  obtain ⟨wellFormed, -⟩ := methodLine?_eq_some_iff.mp read
  cases other
  cases line
  simp only [MethodLine.member, Prod.mk.injEq] at same
  obtain ⟨rfl, rfl, descriptor⟩ := same
  obtain ⟨rfl, rfl⟩ := encodeMethodType_injOn wellFormed.types types descriptor
  exact read

end Uniqueness

/-- The readers accept exactly the lines of their grammar. The names and the descriptor that they
tell are those of the line, a line is made of its pieces in one way, and at most one of the
readers accepts it. -/
theorem lines_read_by_form (text : String) :
    (∀ line, classLine? text = some line ↔ (ofClass line).Spells text) ∧
    (∀ line, fieldLine? text = some line ↔ (ofField line).Spells text) ∧
    (∀ line, isType line.type = true →
      ((fieldLine? text).map FieldLine.member = some line.member ↔
        (ofField line).Spells text)) ∧
    (∀ line, methodLine? text = some line ↔ ∃ range, (ofMethod range line).Spells text) ∧
    (∀ line, (∀ type ∈ line.returned :: line.arguments, isType type = true) →
      ((methodLine? text).map MethodLine.member = some line.member ↔
        ∃ range, (ofMethod range line).Spells text)) ∧
    (∀ first second : Form, first.Spells text → second.Spells text → first = second) ∧
    [(classLine? text).isSome, (fieldLine? text).isSome, (methodLine? text).isSome].count true ≤
      1 := by
  refine ⟨fun line => spells_class_iff.symm, fun line => spells_field_iff.symm,
    fun line type => ?_, fun line => spells_method_iff.symm, fun line types => ?_,
    fun first second => Form.Spells.unique, count_readers_le text⟩
  · rw [spells_field_iff]
    exact ⟨fieldLine?_of_member type, fun read => by rw [read, Option.map_some]⟩
  · rw [spells_method_iff]
    exact ⟨methodLine?_of_member types, fun read => by rw [read, Option.map_some]⟩

theorem lines_read_by_form_ranged :
    (fieldLine? "    a.B[] x-> -> -").map FieldLine.member = some ("x->", "-", "[La/B;") ∧
      (methodLine? "    12:34:a.B[] <init>(int,c[]) -> d-e").map MethodLine.member =
        some ("<init>", "d-e", "(I[Lc;)[La/B;") ∧
      ∀ form : Form, form.Spells "    12:34:a.B[] <init>(int,c[]) -> d-e" →
        form = .ofMethod (some ("12", "34")) ⟨"a.B[]", "<init>", ["int", "c[]"], "d-e"⟩ := by
  have field : (ofField ⟨"a.B[]", "x->", "-"⟩).Spells "    a.B[] x-> -> -" :=
    ⟨(by decide : FieldLine.WellFormed _), rfl⟩
  have numbered : IsNumbered (some ("12", "34")) := by
    rintro pair ⟨⟩
    decide
  have method :
      (ofMethod (some ("12", "34")) ⟨"a.B[]", "<init>", ["int", "c[]"], "d-e"⟩).Spells
        "    12:34:a.B[] <init>(int,c[]) -> d-e" := ⟨⟨numbered, by decide⟩, rfl⟩
  have fields := (lines_read_by_form "    a.B[] x-> -> -").2.2.1
  have methods := (lines_read_by_form "    12:34:a.B[] <init>(int,c[]) -> d-e").2.2.2.2
  refine ⟨?_, ?_, fun form spells => methods.2.1 _ _ spells method⟩
  · exact (fields ⟨"a.B[]", "x->", "-"⟩ (by decide)).mpr field
  · exact (methods.1 ⟨"a.B[]", "<init>", ["int", "c[]"], "d-e"⟩ (by decide)).mpr ⟨_, method⟩

end Deobfuscation.Mapping.Proguard
