import Deobfuscation.Proofs.SourceTypes

/-!
The lines of the Proguard dialect by their grammar. A line is cut at the first place of each
mark before its pieces are looked at. No piece of a well-formed line has the mark that ends it,
so each reader accepts exactly the spellings of its well-formed lines, and no line is of two
kinds.
-/

namespace Deobfuscation.Mapping.Proguard

open Text SourceType

section Pieces

theorem isIdentifier_iff {text : List Char} :
    isIdentifier text = true ↔ text ≠ [] ∧ ∀ char ∈ text, isIdentifierChar char = true := by
  simp [isIdentifier]

theorem not_mem_of_isIdentifier {text : List Char} (identifier : isIdentifier text = true)
    {mark : Char} (special : isIdentifierChar mark = false) : mark ∉ text := by
  intro member
  have allowed := (isIdentifier_iff.mp identifier).2 mark member
  rw [special] at allowed
  cases allowed

theorem isType_iff {text : String} :
    isType text = true ↔ (ofText text).element.toList ≠ [] ∧
      ∀ char ∈ (ofText text).element.toList, isTypeChar char = true := by
  simp [isType]

theorem not_mem_element_of_isType {text : String} (type : isType text = true) {mark : Char}
    (special : isTypeChar mark = false) : mark ∉ (ofText text).element.toList := by
  intro member
  have allowed := (isType_iff.mp type).2 mark member
  rw [special] at allowed
  cases allowed

theorem not_mem_of_isType {text : String} (type : isType text = true) {mark : Char}
    (special : isTypeChar mark = false) (plain : mark ∉ ['[', ']']) : mark ∉ text.toList := by
  rw [← spelling_ofText, spelling, List.mem_append, not_or]
  refine ⟨not_mem_element_of_isType type special, ?_⟩
  intro member
  obtain ⟨pair, inside, found⟩ := List.mem_flatten.mp member
  rw [List.eq_of_mem_replicate inside] at found
  exact plain found

theorem ne_nil_of_isType {text : String} (type : isType text = true) : text.toList ≠ [] := by
  rw [← spelling_ofText, spelling]
  exact List.append_ne_nil_of_left_ne_nil (isType_iff.mp type).1 _

theorem typeDelimited_of_isType {text : String} (type : isType text = true) :
    TypeDelimited text :=
  ⟨not_mem_element_of_isType type (by decide), not_mem_element_of_isType type (by decide)⟩

theorem decodeType?_of_isType {text : String} (type : isType text = true) :
    decodeType? (encodeType text) = some text :=
  decodeType?_encodeType (typeDelimited_of_isType type)

theorem decodeMethodType?_of_isType {returned : String} {arguments : List String}
    (types : ∀ text ∈ returned :: arguments, isType text = true) :
    decodeMethodType? (encodeMethodType returned arguments) = some (returned, arguments) :=
  decodeMethodType?_encodeMethodType fun text member =>
    typeDelimited_of_isType (types text member)

theorem encodeType_injOn {first second : String} (firstType : isType first = true)
    (secondType : isType second = true) (same : encodeType first = encodeType second) :
    first = second := by
  have decoded := decodeType?_of_isType firstType
  rw [same, decodeType?_of_isType secondType] at decoded
  exact (Option.some.inj decoded).symm

/-- Methods with one descriptor have the same types. -/
theorem encodeMethodType_injOn {returned other : String} {arguments others : List String}
    (types : ∀ text ∈ returned :: arguments, isType text = true)
    (otherTypes : ∀ text ∈ other :: others, isType text = true)
    (same : encodeMethodType returned arguments = encodeMethodType other others) :
    returned = other ∧ arguments = others := by
  have decoded := decodeMethodType?_of_isType types
  rw [same, decodeMethodType?_of_isType otherTypes] at decoded
  obtain ⟨rfl, rfl⟩ := Prod.mk.inj (Option.some.inj decoded)
  exact ⟨rfl, rfl⟩

theorem arrow_eq : arrow = [' ', '-', '>', ' '] := by decide

theorem indent_eq : indent = [' ', ' ', ' ', ' '] := by decide

theorem cut?_arrow {before : List Char} (free : ' ' ∉ before) (after : List Char) :
    cut? arrow (before ++ (arrow ++ after)) = some (before, after) := by
  rw [arrow_eq]
  exact cut?_of_append free ['-', '>', ' '] after

theorem identifiers?_eq_some_iff {text : List Char} {original obfuscated : String} :
    identifiers? text = some (original, obfuscated) ↔
      isIdentifier original.toList = true ∧ isIdentifier obfuscated.toList = true ∧
        text = original.toList ++ (arrow ++ obfuscated.toList) := by
  constructor
  · intro read
    simp only [identifiers?, Option.bind_eq_bind, Option.bind_eq_some_iff, Prod.exists] at read
    obtain ⟨before, after, found, read⟩ := read
    split at read
    · rename_i both
      simp only [Option.some.injEq, Prod.mk.injEq] at read
      obtain ⟨rfl, rfl⟩ := read
      simpa [cut?_append found] using both
    · cases read
  · rintro ⟨first, second, rfl⟩
    have found := cut?_arrow (not_mem_of_isIdentifier first (by decide)) obfuscated.toList
    simp [identifiers?, found, first, second]

end Pieces

section Classes

/-- Both names are identifiers. -/
def ClassLine.WellFormed (line : ClassLine) : Prop :=
  isIdentifier line.original.toList = true ∧ isIdentifier line.obfuscated.toList = true

instance (line : ClassLine) : Decidable line.WellFormed :=
  inferInstanceAs (Decidable (_ ∧ _))

def ClassLine.spelling (line : ClassLine) : List Char :=
  line.original.toList ++ (arrow ++ line.obfuscated.toList) ++ [':']

theorem classLine?_eq_some_iff {text : String} {line : ClassLine} :
    classLine? text = some line ↔ line.WellFormed ∧ text.toList = line.spelling := by
  obtain ⟨original, obfuscated⟩ := line
  simp only [classLine?, Option.bind_eq_bind, Option.bind_eq_some_iff, Prod.exists,
    stripEnd?_eq_some, identifiers?_eq_some_iff, Option.pure_def, Option.some.injEq,
    ClassLine.mk.injEq, ClassLine.WellFormed, ClassLine.spelling]
  constructor
  · rintro ⟨body, whole, _, _, ⟨first, second, rfl⟩, rfl, rfl⟩
    exact ⟨⟨first, second⟩, whole⟩
  · rintro ⟨⟨first, second⟩, whole⟩
    exact ⟨_, whole, _, _, ⟨first, second, rfl⟩, rfl, rfl⟩

end Classes

section Fields

def FieldLine.WellFormed (line : FieldLine) : Prop :=
  isType line.type = true ∧ isIdentifier line.original.toList = true ∧
    isIdentifier line.obfuscated.toList = true

instance (line : FieldLine) : Decidable line.WellFormed :=
  inferInstanceAs (Decidable (_ ∧ _ ∧ _))

def FieldLine.spelling (line : FieldLine) : List Char :=
  indent ++ (line.type.toList ++ ' ' :: (line.original.toList ++ (arrow ++ line.obfuscated.toList)))

theorem fieldLine?_eq_some_iff {text : String} {line : FieldLine} :
    fieldLine? text = some line ↔ line.WellFormed ∧ text.toList = line.spelling := by
  obtain ⟨type, original, obfuscated⟩ := line
  simp only [fieldLine?, Option.bind_eq_bind, Option.bind_eq_some_iff, Prod.exists,
    stripStart?_eq_some, identifiers?_eq_some_iff, FieldLine.WellFormed, FieldLine.spelling]
  constructor
  · rintro ⟨body, whole, before, after, found, _, _, ⟨first, second, rfl⟩, read⟩
    split at read
    · rename_i valid
      simp only [Option.some.injEq, FieldLine.mk.injEq] at read
      obtain ⟨rfl, rfl, rfl⟩ := read
      refine ⟨⟨valid, first, second⟩, ?_⟩
      rw [whole, cut?_append found]
      simp
    · cases read
  · rintro ⟨⟨valid, first, second⟩, whole⟩
    have free : ' ' ∉ type.toList := not_mem_of_isType valid (by decide) (by decide)
    refine ⟨_, whole, type.toList, _, ?_, original, obfuscated, ⟨first, second, rfl⟩,
      by simp [valid]⟩
    exact cut?_of_append free [] _

end Fields

section Methods

def MethodLine.WellFormed (line : MethodLine) : Prop :=
  isType line.returned = true ∧ isIdentifier line.original.toList = true ∧
    isIdentifier line.obfuscated.toList = true ∧ ∀ text ∈ line.arguments, isType text = true

instance (line : MethodLine) : Decidable line.WellFormed :=
  inferInstanceAs (Decidable (_ ∧ _ ∧ _ ∧ _))

theorem MethodLine.WellFormed.types {line : MethodLine} (wellFormed : line.WellFormed) :
    ∀ text ∈ line.returned :: line.arguments, isType text = true :=
  List.forall_mem_cons.mpr ⟨wellFormed.1, wellFormed.2.2.2⟩

/-- What may stand before a method: nothing, or two numbers with a colon behind each. -/
inductive IsRange : List Char → Prop where
  | none : IsRange []
  | numbers {start stop : List Char} : isNumber start = true → isNumber stop = true →
      IsRange (start ++ ':' :: (stop ++ [':']))

/-- The name of a method with its argument types in parentheses. -/
def MethodLine.signature (line : MethodLine) : List Char :=
  line.original.toList ++ '(' :: ([','].intercalate (line.arguments.map String.toList)) ++ [')']

/-- A method line behind its range. -/
def MethodLine.body (line : MethodLine) : List Char :=
  line.returned.toList ++ ' ' :: (line.signature ++ (arrow ++ line.obfuscated.toList))

def MethodLine.spelling (line : MethodLine) (range : List Char) : List Char :=
  indent ++ (range ++ line.body)

theorem skipRange_eq (text : List Char) :
    ∃ range, IsRange range ∧ text = range ++ skipRange text := by
  unfold skipRange
  split
  · exact ⟨[], .none, rfl⟩
  · rename_i start rest found
    split
    · exact ⟨[], .none, rfl⟩
    · rename_i stop behind foundNext
      split
      · rename_i both
        rw [Bool.and_eq_true] at both
        refine ⟨_, .numbers both.1 both.2, ?_⟩
        rw [cut?_append found, cut?_append foundNext]
        simp
      · exact ⟨[], .none, rfl⟩

theorem not_mem_of_isNumber {text : List Char} (number : isNumber text = true) {mark : Char}
    (special : mark.isDigit = false) : mark ∉ text := by
  intro member
  simp only [isNumber, Bool.and_eq_true, List.all_eq_true] at number
  have digit := number.2 mark member
  rw [special] at digit
  cases digit

theorem skipRange_append {range body : List Char} (valid : IsRange range) (free : ':' ∉ body) :
    skipRange (range ++ body) = body := by
  cases valid with
  | none => simp [skipRange, cut?_of_not_mem free]
  | @numbers start stop first second =>
      have startFree : ':' ∉ start := not_mem_of_isNumber first (by decide)
      have stopFree : ':' ∉ stop := not_mem_of_isNumber second (by decide)
      have cutStart := cut?_of_append startFree [] (stop ++ ':' :: ([] ++ body))
      have cutStop := cut?_of_append stopFree [] body
      have shape : start ++ ':' :: (stop ++ [':']) ++ body =
          start ++ ':' :: ([] ++ (stop ++ ':' :: ([] ++ body))) := by simp
      rw [shape]
      simp only [skipRange, cutStart, cutStop, first, second, Bool.and_self, if_true]

theorem arguments_toList (types : List Char) :
    types = [','].intercalate ((arguments types).map String.toList) := by
  unfold arguments
  split
  · rename_i none
    rw [List.isEmpty_iff.mp none]
    rfl
  · rw [List.map_map, show String.toList ∘ String.ofList = id from
      funext fun chars => String.toList_ofList, List.map_id, intercalate_splitAll]

theorem arguments_intercalate {types : List String} (valid : ∀ text ∈ types, isType text = true) :
    arguments ([','].intercalate (types.map String.toList)) = types := by
  cases types with
  | nil => rfl
  | cons first rest =>
      have free : ∀ part ∈ (first :: rest).map String.toList, ',' ∉ part := by
        intro part member
        obtain ⟨text, inside, rfl⟩ := List.mem_map.mp member
        exact not_mem_of_isType (valid text inside) (by decide) (by decide)
      have parts := splitAll_intercalate (by simp) free
      have present : [','].intercalate ((first :: rest).map String.toList) ≠ [] := by
        intro empty
        rw [empty] at parts
        have alone : [[]] = (first :: rest).map String.toList := parts
        rw [List.map_cons, List.cons.injEq] at alone
        exact ne_nil_of_isType (valid first List.mem_cons_self) alone.1.symm
      rw [arguments, if_neg (by simpa using present), parts, List.map_map,
        show String.ofList ∘ String.toList = id from funext fun text => String.ofList_toList,
        List.map_id]

theorem not_mem_arguments {types : List String} (valid : ∀ text ∈ types, isType text = true)
    {mark : Char} (special : isTypeChar mark = false) (plain : mark ∉ ['[', ']', ',']) :
    mark ∉ [','].intercalate (types.map String.toList) := by
  intro member
  simp only [List.mem_cons, List.not_mem_nil, or_false, not_or] at plain
  rcases mem_of_mem_intercalate member with comma | ⟨part, inside, found⟩
  · exact plain.2.2 comma
  · obtain ⟨text, listed, rfl⟩ := List.mem_map.mp inside
    exact not_mem_of_isType (valid text listed) special (by simp [plain]) found

theorem MethodLine.WellFormed.not_mem_signature {line : MethodLine}
    (wellFormed : line.WellFormed) {mark : Char} (special : isIdentifierChar mark = false)
    (specialType : isTypeChar mark = false) (plain : mark ∉ ['[', ']', ',', '(', ')']) :
    mark ∉ line.signature := by
  obtain ⟨-, original, -, types⟩ := wellFormed
  simp only [List.mem_cons, List.not_mem_nil, or_false, not_or] at plain
  have inTypes := not_mem_arguments types specialType (by simp [plain])
  simp [MethodLine.signature, not_mem_of_isIdentifier original special, inTypes, plain]

theorem MethodLine.WellFormed.not_mem_body {line : MethodLine} (wellFormed : line.WellFormed) :
    ':' ∉ line.body := by
  have inSignature : ':' ∉ line.signature :=
    wellFormed.not_mem_signature (by decide) (by decide) (by decide)
  obtain ⟨returned, -, obfuscated, -⟩ := wellFormed
  have inReturned : ':' ∉ line.returned.toList := not_mem_of_isType returned (by decide) (by decide)
  have inObfuscated : ':' ∉ line.obfuscated.toList := not_mem_of_isIdentifier obfuscated (by decide)
  simp [MethodLine.body, arrow_eq, inReturned, inSignature, inObfuscated]

theorem methodLine?_eq_some_iff {text : String} {line : MethodLine} :
    methodLine? text = some line ↔
      line.WellFormed ∧ ∃ range, IsRange range ∧ text.toList = line.spelling range := by
  simp only [methodLine?, Option.bind_eq_bind, Option.bind_eq_some_iff, Prod.exists,
    stripStart?_eq_some, stripEnd?_eq_some]
  constructor
  · rintro ⟨body, whole, returned, rest, cutReturned, signature, obfuscated, cutArrow, inner,
      closed, original, types, cutTypes, read⟩
    split at read
    · rename_i valid
      simp only [Option.some.injEq] at read
      subst read
      simp only [Bool.and_eq_true, List.all_eq_true] at valid
      obtain ⟨⟨⟨validReturned, validOriginal⟩, validObfuscated⟩, validTypes⟩ := valid
      refine ⟨⟨validReturned, by simpa using validOriginal, by simpa using validObfuscated,
        validTypes⟩, ?_⟩
      obtain ⟨range, isRange, split⟩ := skipRange_eq body
      refine ⟨range, isRange, ?_⟩
      rw [whole, split, cut?_append cutReturned, cut?_append cutArrow, closed,
        cut?_append cutTypes]
      simp [MethodLine.spelling, MethodLine.body, MethodLine.signature, ← arguments_toList]
    · cases read
  · rintro ⟨wellFormed, range, isRange, whole⟩
    have inSignature : ' ' ∉ line.signature :=
      wellFormed.not_mem_signature (by decide) (by decide) (by decide)
    have skipped := skipRange_append isRange wellFormed.not_mem_body
    obtain ⟨returned, original, obfuscated, types⟩ := wellFormed
    have inReturned : ' ' ∉ line.returned.toList :=
      not_mem_of_isType returned (by decide) (by decide)
    have inOriginal : '(' ∉ line.original.toList := not_mem_of_isIdentifier original (by decide)
    have cutReturned : cut? [' '] (skipRange (range ++ line.body)) =
        some (line.returned.toList, line.signature ++ (arrow ++ line.obfuscated.toList)) := by
      rw [skipped]
      exact cut?_of_append inReturned [] _
    have cutTypes := cut?_of_append inOriginal []
      ([','].intercalate (line.arguments.map String.toList))
    refine ⟨_, whole, _, _, cutReturned, _, _, cut?_arrow inSignature line.obfuscated.toList,
      _, rfl, _, _, cutTypes, ?_⟩
    simpa [arguments_intercalate types, returned, original, obfuscated] using types

end Methods

section Kinds

/-- A class line does not begin with a space, and a member line does. -/
theorem classLine?_of_indent {text : String} {rest : List Char}
    (indented : text.toList = indent ++ rest) : classLine? text = none := by
  cases read : classLine? text with
  | none => rfl
  | some line =>
      obtain ⟨⟨original, -⟩, whole⟩ := classLine?_eq_some_iff.mp read
      have free : ' ' ∉ line.original.toList := not_mem_of_isIdentifier original (by decide)
      obtain ⟨present, -⟩ := isIdentifier_iff.mp original
      rw [indented, indent_eq, ClassLine.spelling] at whole
      cases chars : line.original.toList with
      | nil => exact absurd chars present
      | cons first others =>
          rw [chars] at whole free
          have same := (List.cons.inj whole).1
          exact absurd (same ▸ List.mem_cons_self) free

theorem classLine?_of_fieldLine? {text : String} {line : FieldLine}
    (read : fieldLine? text = some line) : classLine? text = none :=
  classLine?_of_indent (fieldLine?_eq_some_iff.mp read).2

theorem classLine?_of_methodLine? {text : String} {line : MethodLine}
    (read : methodLine? text = some line) : classLine? text = none := by
  obtain ⟨-, range, -, whole⟩ := methodLine?_eq_some_iff.mp read
  exact classLine?_of_indent whole

/-- A method line has a parenthesis, and a field line has none. -/
theorem fieldLine?_of_methodLine? {text : String} {line : MethodLine}
    (read : methodLine? text = some line) : fieldLine? text = none := by
  cases other : fieldLine? text with
  | none => rfl
  | some field =>
      obtain ⟨-, range, -, whole⟩ := methodLine?_eq_some_iff.mp read
      obtain ⟨⟨type, original, obfuscated⟩, spelled⟩ := fieldLine?_eq_some_iff.mp other
      have inType : '(' ∉ field.type.toList := not_mem_of_isType type (by decide) (by decide)
      have inOriginal : '(' ∉ field.original.toList :=
        not_mem_of_isIdentifier original (by decide)
      have inObfuscated : '(' ∉ field.obfuscated.toList :=
        not_mem_of_isIdentifier obfuscated (by decide)
      have absent : '(' ∉ text.toList := by
        simp [spelled, FieldLine.spelling, indent_eq, arrow_eq, inType, inOriginal, inObfuscated]
      have present : '(' ∈ text.toList := by
        simp [whole, MethodLine.spelling, MethodLine.body, MethodLine.signature]
      exact absurd present absent

end Kinds

end Deobfuscation.Mapping.Proguard
