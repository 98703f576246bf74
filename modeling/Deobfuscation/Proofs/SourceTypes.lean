import Deobfuscation.Mapping.Proguard.Line
import Deobfuscation.Proofs.Cutting
import Deobfuscation.Proofs.TableOrder

/-!
Types of source code and their descriptors. A type is its element with brackets behind it, and
a text is a type in one way only. Main statement: a method descriptor is decoded to the types it
is made from, although nothing stands between two of them.
-/

namespace Deobfuscation

namespace SourceType

def brackets (dimensions : Nat) : List Char := (List.replicate dimensions ['[', ']']).flatten

def spelling (type : SourceType) : List Char := type.element.toList ++ brackets type.dimensions

theorem brackets_succ (dimensions : Nat) :
    brackets (dimensions + 1) = brackets dimensions ++ ['[', ']'] := by
  simp [brackets, List.replicate_succ']

theorem takeBrackets_eq (reversed : List Char) :
    reversed.reverse =
      (takeBrackets reversed).2.reverse ++ brackets (takeBrackets reversed).1 := by
  fun_induction takeBrackets reversed with
  | case1 rest parts ih =>
      rw [brackets_succ, ← List.append_assoc, ← ih]
      simp
  | case2 text _ => simp [brackets]

/-- Every text is the spelling of the type it is read as. -/
theorem spelling_ofText (text : String) : (ofText text).spelling = text.toList := by
  have whole := takeBrackets_eq text.toList.reverse
  simpa [spelling, ofText] using whole.symm

theorem takeBrackets_brackets {element : List Char} (closed : ']' ∉ element) (dimensions : Nat) :
    takeBrackets ((brackets dimensions).reverse ++ element.reverse) =
      (dimensions, element.reverse) := by
  induction dimensions with
  | zero =>
      have start : element.reverse.head? ≠ some ']' := by
        intro last
        exact closed (by simpa using List.mem_of_head? last)
      rw [show brackets 0 = [] from rfl, List.reverse_nil, List.nil_append]
      unfold takeBrackets
      split
      · rename_i same
        simp [same] at start
      · rfl
  | succ dimensions ih =>
      rw [brackets_succ, List.reverse_append]
      simp [takeBrackets, ih]

/-- A type whose element has no brackets is read back from its spelling. -/
theorem ofText_spelling {type : SourceType} (closed : ']' ∉ type.element.toList) :
    ofText (String.ofList type.spelling) = type := by
  simp only [ofText, spelling, String.toList_ofList, List.reverse_append,
    takeBrackets_brackets closed, List.reverse_reverse, String.ofList_toList]

theorem internalName_toList (name : String) :
    (internalName name).toList = name.toList.map fun char => if char = '.' then '/' else char := by
  simp [internalName]

def sourceName (name : List Char) : String :=
  String.ofList (name.map fun char => if char = '/' then '.' else char)

theorem sourceName_internalName {name : String} (free : '/' ∉ name.toList) :
    sourceName (internalName name).toList = name := by
  have back : ((internalName name).toList.map fun char => if char = '/' then '.' else char) =
      name.toList := by
    rw [internalName_toList, List.map_map]
    refine (List.map_congr_left fun char member => ?_).trans (List.map_id name.toList)
    have other : char ≠ '/' := fun equal => free (equal ▸ member)
    by_cases dot : char = '.' <;> simp [dot, other]
  rw [sourceName, back, String.ofList_toList]

theorem internalName_injOn {first second : String} (firstFree : '/' ∉ first.toList)
    (secondFree : '/' ∉ second.toList) (same : internalName first = internalName second) :
    first = second := by
  rw [← sourceName_internalName firstFree, same, sourceName_internalName secondFree]

theorem not_mem_internalName {name : String} {char : Char} (absent : char ∉ name.toList)
    (noSlash : char ≠ '/') : char ∉ (internalName name).toList := by
  rw [internalName_toList, List.mem_map]
  rintro ⟨other, member, same⟩
  split at same
  · exact noSlash same.symm
  · exact absent (same ▸ member)

/-- The element has a one letter code. -/
def IsCoded (element : String) : Prop := element ∈ codes.map Prod.fst

instance (element : String) : Decidable (IsCoded element) :=
  inferInstanceAs (Decidable (element ∈ codes.map Prod.fst))

theorem elementDescriptor_of_uncoded {element : String} (uncoded : ¬ IsCoded element) :
    elementDescriptor element = 'L' :: (internalName element).toList ++ [';'] := by
  simp only [elementDescriptor, Table.find_eq_none_iff.mpr uncoded]

/-- The descriptor of an element is a letter other than `L`, or a class name with its marks. -/
theorem elementDescriptor_cases (element : String) :
    (∃ code, (element, code) ∈ codes ∧ elementDescriptor element = [code]) ∨
      ¬ IsCoded element ∧
        elementDescriptor element = 'L' :: (internalName element).toList ++ [';'] := by
  cases found : Table.find element codes with
  | none =>
      have uncoded := Table.find_eq_none_iff.mp found
      exact Or.inr ⟨uncoded, elementDescriptor_of_uncoded uncoded⟩
  | some code => exact Or.inl ⟨code, Table.mem_of_find found, by simp [elementDescriptor, found]⟩

theorem code_ne {element : String} {code : Char} (coded : (element, code) ∈ codes) :
    code ≠ 'L' ∧ code ≠ '[' ∧ code ≠ ')' := by
  have all : ∀ pair ∈ codes, pair.2 ≠ 'L' ∧ pair.2 ≠ '[' ∧ pair.2 ≠ ')' := by decide
  exact all _ coded

theorem find?_code {element : String} {code : Char} (coded : (element, code) ∈ codes) :
    codes.find? (fun pair => pair.2 = code) = some (element, code) := by
  have all : ∀ pair ∈ codes, codes.find? (fun other => other.2 = pair.2) = some pair := by decide
  exact all _ coded

/-- An element whose descriptor shows where it ends. -/
def Delimited (element : String) : Prop := '/' ∉ element.toList ∧ ';' ∉ element.toList

def takeElement? : List Char → Option (String × List Char)
  | [] => none
  | first :: rest =>
      if first = 'L' then
        (Text.cut? [';'] rest).map fun parts => (sourceName parts.1, parts.2)
      else (codes.find? fun pair => pair.2 = first).map fun pair => (pair.1, rest)

theorem takeElement?_append {element : String} (free : Delimited element) (rest : List Char) :
    takeElement? (elementDescriptor element ++ rest) = some (element, rest) := by
  rcases elementDescriptor_cases element with ⟨code, coded, spelled⟩ | ⟨-, spelled⟩
  · simp [spelled, takeElement?, (code_ne coded).1, find?_code coded]
  · have named := Text.cut?_of_append (not_mem_internalName free.2 (by decide)) [] rest
    simp only [List.nil_append] at named
    simp [spelled, takeElement?, named, sourceName_internalName free.1]

theorem takeElement?_length {text rest : List Char} {element : String}
    (taken : takeElement? text = some (element, rest)) : rest.length < text.length := by
  cases text with
  | nil => cases taken
  | cons first behind =>
      simp only [takeElement?] at taken
      split at taken
      · obtain ⟨parts, cut, same⟩ := Option.map_eq_some_iff.mp taken
        cases same
        rw [Text.cut?_append cut]
        simp only [List.length_cons, List.length_append]
        omega
      · obtain ⟨pair, -, same⟩ := Option.map_eq_some_iff.mp taken
        cases same
        simp

def take? : List Char → Option (SourceType × List Char)
  | [] => none
  | first :: rest =>
      if first = '[' then
        (take? rest).map fun parts => (⟨parts.1.element, parts.1.dimensions + 1⟩, parts.2)
      else (takeElement? (first :: rest)).map fun parts => (⟨parts.1, 0⟩, parts.2)

theorem head_elementDescriptor (element : String) :
    ∃ first rest, elementDescriptor element = first :: rest ∧ first ≠ '[' ∧ first ≠ ')' := by
  rcases elementDescriptor_cases element with ⟨code, coded, spelled⟩ | ⟨-, spelled⟩
  · exact ⟨code, [], spelled, (code_ne coded).2⟩
  · exact ⟨'L', _, spelled, by decide, by decide⟩

theorem take?_append {type : SourceType} (free : Delimited type.element) (rest : List Char) :
    take? (type.descriptor.toList ++ rest) = some (type, rest) := by
  obtain ⟨element, dimensions⟩ := type
  simp only [descriptor, String.toList_ofList, List.append_assoc]
  -- one bracket is taken for each dimension
  induction dimensions with
  | zero =>
      have taken := takeElement?_append free rest
      obtain ⟨first, more, spelled, noBracket, -⟩ := head_elementDescriptor element
      rw [spelled] at taken ⊢
      simp only [List.cons_append] at taken
      simp [take?, noBracket, taken]
  | succ dimensions ih => simp [List.replicate_succ, take?, ih free]

theorem take?_length {text rest : List Char} {type : SourceType}
    (taken : take? text = some (type, rest)) : rest.length < text.length := by
  induction text generalizing type with
  | nil => cases taken
  | cons first behind ih =>
      simp only [take?] at taken
      split at taken
      · obtain ⟨parts, inner, same⟩ := Option.map_eq_some_iff.mp taken
        cases same
        exact Nat.lt_succ_of_lt (ih inner)
      · obtain ⟨parts, inner, same⟩ := Option.map_eq_some_iff.mp taken
        cases same
        exact takeElement?_length inner

/-- The types before a closing parenthesis, and what follows it. -/
def takeAll? (text : List Char) : Option (List SourceType × List Char) :=
  if text.head? = some ')' then some ([], text.tail)
  else
    match taken : take? text with
    | none => none
    | some (type, rest) =>
        have := take?_length taken
        (takeAll? rest).map fun parts => (type :: parts.1, parts.2)
termination_by text.length

theorem head_descriptor (type : SourceType) (rest : List Char) :
    (type.descriptor.toList ++ rest).head? ≠ some ')' := by
  obtain ⟨element, dimensions⟩ := type
  cases dimensions with
  | zero =>
      obtain ⟨first, more, spelled, -, noClose⟩ := head_elementDescriptor element
      simpa [descriptor, spelled] using noClose
  | succ dimensions => simp [descriptor, List.replicate_succ]

theorem takeAll?_append {types : List SourceType} (free : ∀ type ∈ types, Delimited type.element)
    (rest : List Char) :
    takeAll? (types.flatMap (fun type => type.descriptor.toList) ++ ')' :: rest) =
      some (types, rest) := by
  induction types with
  | nil => simp [takeAll?]
  | cons type more ih =>
      rw [List.forall_mem_cons] at free
      rw [List.flatMap_cons, List.append_assoc, takeAll?, if_neg (head_descriptor type _)]
      split
      · rename_i none
        rw [take?_append free.1] at none
        cases none
      · rename_i other behind taken
        rw [take?_append free.1] at taken
        cases taken
        rw [ih free.2, Option.map_some]

end SourceType

open SourceType

/-- A text whose type has a descriptor that shows where it ends. -/
def TypeDelimited (text : String) : Prop := Delimited (ofText text).element

/-- Reads the type back that a descriptor is made from. -/
def decodeType? (descriptor : String) : Option String :=
  match take? descriptor.toList with
  | some (type, []) => some (String.ofList type.spelling)
  | _ => none

/-- Reads the returned type and the arguments back that a descriptor is made from. -/
def decodeMethodType? (descriptor : String) : Option (String × List String) := do
  let inner ← Text.stripStart? ['('] descriptor.toList
  let (arguments, behind) ← takeAll? inner
  let returned ← decodeType? (String.ofList behind)
  return (returned, arguments.map fun type => String.ofList type.spelling)

theorem decodeType?_encodeType {text : String} (free : TypeDelimited text) :
    decodeType? (encodeType text) = some text := by
  have taken := take?_append free []
  rw [List.append_nil] at taken
  simp [decodeType?, encodeType, taken, spelling_ofText]

/-- A method descriptor tells its types, although nothing stands between two of them. -/
theorem decodeMethodType?_encodeMethodType {returned : String} {arguments : List String}
    (free : ∀ text ∈ returned :: arguments, TypeDelimited text) :
    decodeMethodType? (encodeMethodType returned arguments) = some (returned, arguments) := by
  rw [List.forall_mem_cons] at free
  have taken := takeAll?_append (List.forall_mem_map.mpr free.2) (encodeType returned).toList
  rw [List.flatMap_map] at taken
  have texts : (arguments.map ofText).map (fun type => String.ofList type.spelling) =
      arguments := by
    rw [List.map_map]
    refine (List.map_congr_left fun text _ => ?_).trans (List.map_id arguments)
    simp [spelling_ofText]
  have stripped : Text.stripStart? ['('] (encodeMethodType returned arguments).toList =
      some (arguments.flatMap (fun text => (ofText text).descriptor.toList) ++
        ')' :: (encodeType returned).toList) := by
    simp [encodeMethodType, encodeType]
  simp [decodeMethodType?, stripped, taken, decodeType?_encodeType free.1, texts]

end Deobfuscation
