import Deobfuscation.Proofs.GenericSignature
import Deobfuscation.Proofs.ProguardBlocks

/-!
The keys under which methods are stored and looked up. A mapping file stores a method under the
descriptor that its source types have, and a class file is asked about with the descriptor that
the obfuscated types have, once that is mapped. Main statements: both are one key, and methods
with different types have different keys.
-/

namespace Deobfuscation

namespace Signature

open SourceType

/-- A type with this element is mapped to the type with the other element. -/
inductive MapsElement (names : String → String) : String → String → Prop where
  | coded {element : String} (coded : IsCoded element) : MapsElement names element element
  | className {element result : String} (uncoded : ¬ IsCoded element)
      (resultUncoded : ¬ IsCoded result) (unbroken : Unbroken (internalName element).toList)
      (looked : names (internalName element) = internalName result) :
      MapsElement names element result

/-- Only the elements of the types differ. -/
structure MapsType (names : String → String) (text result : String) : Prop where
  element : MapsElement names (ofText text).element (ofText result).element
  dimensions : (ofText text).dimensions = (ofText result).dimensions

variable {names : String → String}

theorem unbroken_internalName {name : String} (stop : ';' ∉ name.toList)
    (angle : '<' ∉ name.toList) : Unbroken (internalName name).toList := by
  intro char member
  have noStop : char ≠ ';' := fun same => not_mem_internalName stop (by decide) (same ▸ member)
  have noAngle : char ≠ '<' := fun same => not_mem_internalName angle (by decide) (same ▸ member)
  have noDot : char ≠ '.' := by
    rintro rfl
    rw [internalName_toList, List.mem_map] at member
    obtain ⟨other, -, same⟩ := member
    split_ifs at same with dot
    · cases same
    · exact dot same
  simp [endsName, noStop, noAngle, noDot]

theorem mappedFrom_element {element result : String} (maps : MapsElement names element result)
    (rest : List Char) :
    mappedFrom names none (elementDescriptor element ++ rest) =
      elementDescriptor result ++ mappedFrom names none rest := by
  cases maps with
  | coded coded =>
      rcases elementDescriptor_cases element with ⟨code, listed, spelled⟩ | ⟨uncoded, -⟩
      · have plain : 'L' ∉ [code] := by simpa using (code_ne listed).1.symm
        rw [spelled]
        exact mappedFrom_plain names plain rest
      · exact absurd coded uncoded
  | className uncoded resultUncoded unbroken looked =>
      have stop := mappedFrom_stop names (by decide : endsName ';' = true)
        ((internalName element).toList.reverse ++ []) rest
      rw [elementDescriptor_of_uncoded uncoded, elementDescriptor_of_uncoded resultUncoded,
        List.cons_append, List.cons_append, mappedFrom_letter, List.append_assoc,
        mappedFrom_unbroken names unbroken, List.singleton_append, stop]
      simp [looked]

theorem mappedFrom_encodeType {text result : String} (maps : MapsType names text result)
    (rest : List Char) :
    mappedFrom names none ((encodeType text).toList ++ rest) =
      (encodeType result).toList ++ mappedFrom names none rest := by
  have plain : 'L' ∉ List.replicate (ofText result).dimensions '[' := by
    simp [List.mem_replicate]
  simp only [encodeType, descriptor, String.toList_ofList, maps.dimensions, List.append_assoc]
  rw [mappedFrom_plain names plain, mappedFrom_element maps.element]

theorem mappedFrom_arguments {texts results : List String}
    (maps : List.Forall₂ (MapsType names) texts results) (rest : List Char) :
    mappedFrom names none (texts.flatMap (fun text => (encodeType text).toList) ++ rest) =
      results.flatMap (fun text => (encodeType text).toList) ++ mappedFrom names none rest := by
  induction maps with
  | nil => rfl
  | cons first _ ih =>
      simp only [List.flatMap_cons, List.append_assoc]
      rw [mappedFrom_encodeType first, ih]

/-- Mapping a method descriptor is mapping its types. -/
theorem map_encodeMethodType {table : Table String String} {returned result : String}
    {arguments results : List String} (maps : MapsType (renamed table) returned result)
    (argumentsMap : List.Forall₂ (MapsType (renamed table)) arguments results) :
    map table (encodeMethodType returned arguments) = encodeMethodType result results := by
  have opening := mappedFrom_plain (renamed table) (by decide : 'L' ∉ ['('])
  have close := mappedFrom_plain (renamed table) (by decide : 'L' ∉ [')'])
  have last := mappedFrom_encodeType maps []
  simp only [List.singleton_append, List.append_nil] at opening close last
  rw [← String.toList_inj, toList_map]
  simp only [encodeMethodType, String.toList_ofList, List.cons_append]
  rw [opening, mappedFrom_arguments argumentsMap, close, last]
  simp [mappedFrom, scan]

end Signature

namespace Mapping.Proguard

open SourceType Signature

/-- Both the original and the obfuscated names tell the classes apart, and no name of a class
could be taken for something else in a descriptor. -/
structure Distinguishable (table : List Block) : Prop where
  originals : (table.map fun block => block.header.original).Nodup
  obfuscated : (table.map fun block => block.header.obfuscated).Nodup
  angle : ∀ block ∈ table, '<' ∉ block.header.obfuscated.toList
  uncoded : ∀ block ∈ table, ¬ IsCoded block.header.original ∧ ¬ IsCoded block.header.obfuscated

def obfuscatedElement (table : List Block) (element : String) : String :=
  ((table.find? fun block => block.header.original = element).map
    fun block => block.header.obfuscated).getD element

/-- A type of the source with the obfuscated name of its class. Brackets stay. -/
def obfuscatedType (table : List Block) (text : String) : String :=
  let type := ofText text
  String.ofList (SourceType.mk (obfuscatedElement table type.element) type.dimensions).spelling

/-- The element is the original name of a class, or the name of none. -/
def Unmixed (table : List Block) (element : String) : Prop :=
  element ∉ table.map (fun block => block.header.original) →
    element ∉ table.map fun block => block.header.obfuscated

instance (table : List Block) (element : String) : Decidable (Unmixed table element) :=
  inferInstanceAs (Decidable (_ → _))

section Names

variable {table : List Block} (valid : ∀ block ∈ table, block.WellFormed)
  (distinguishable : Distinguishable table)

include valid distinguishable

theorem get?_of_block {block : Block} (inside : block ∈ table) :
    (Mappings.ofClasses (table.map Block.mapping)).get? (internalName block.header.obfuscated) =
      some block.mapping := by
  have once := Block.nodup_internalName valid distinguishable.obfuscated
  rw [Mappings.get?, Mappings.ofClasses, (Table.recalls_ofList _).values, List.map_map]
  refine Table.latest_of_mem ?_ (List.mem_map.mpr ⟨block, inside, rfl⟩)
  rw [List.map_map]
  exact once

omit distinguishable in
theorem get?_of_unknown {element : String} (slashless : '/' ∉ element.toList)
    (unknown : element ∉ table.map fun block => block.header.obfuscated) :
    (Mappings.ofClasses (table.map Block.mapping)).get? (internalName element) = none := by
  rw [Mappings.get?, Mappings.ofClasses, (Table.recalls_ofList _).values,
    Table.latest_eq_none_iff, List.map_map, List.map_map, List.mem_map]
  rintro ⟨block, inside, same⟩
  have blockSlashless : '/' ∉ block.header.obfuscated.toList :=
    not_mem_of_isIdentifier (valid block inside).1.2 (by decide)
  have equal := internalName_injOn blockSlashless slashless same
  exact unknown (List.mem_map.mpr ⟨block, inside, equal⟩)

theorem mapsElement_of_isType {text : String} (type : isType text = true)
    (unmixed : Unmixed table (ofText text).element) :
    MapsElement (renamed (Mappings.ofClasses (table.map Block.mapping)).classNames)
      (obfuscatedElement table (ofText text).element) (ofText text).element := by
  have lookup : ∀ name, (Mappings.ofClasses (table.map Block.mapping)).classNames.get? name =
      ((Mappings.ofClasses (table.map Block.mapping)).get? name).map ClassMapping.originalName :=
    fun name => Table.get?_mapValues _ _ name
  cases found : table.find? fun block => block.header.original = (ofText text).element with
  | some block =>
      have inside := List.mem_of_find?_eq_some found
      have same : block.header.original = (ofText text).element := by
        simpa using List.find?_some found
      have identifier := (valid block inside).1.2
      have uncoded := distinguishable.uncoded block inside
      rw [obfuscatedElement, found, Option.map_some, Option.getD_some, ← same]
      refine .className uncoded.2 uncoded.1 (unbroken_internalName
        (not_mem_of_isIdentifier identifier (by decide)) (distinguishable.angle block inside)) ?_
      rw [renamed, lookup, get?_of_block valid distinguishable inside, Option.map_some,
        Option.getD_some]
      rfl
  | none =>
      have original : (ofText text).element ∉ table.map fun block => block.header.original := by
        simpa using found
      rw [obfuscatedElement, found, Option.map_none, Option.getD_none]
      -- a letter is copied, and a name that no obfuscated class has is not in the table
      by_cases coded : IsCoded (ofText text).element
      · exact .coded coded
      · have slashless := not_mem_element_of_isType type (by decide : isTypeChar '/' = false)
        refine .className coded coded (unbroken_internalName
          (not_mem_element_of_isType type (by decide))
          (not_mem_element_of_isType type (by decide))) ?_
        rw [renamed, lookup, get?_of_unknown valid slashless (unmixed original), Option.map_none,
          Option.getD_none]

omit distinguishable in
theorem ofText_obfuscatedType {text : String} (type : isType text = true) :
    ofText (obfuscatedType table text) =
      ⟨obfuscatedElement table (ofText text).element, (ofText text).dimensions⟩ := by
  refine ofText_spelling ?_
  unfold obfuscatedElement
  cases found : table.find? fun block => block.header.original = (ofText text).element with
  | some block =>
      have inside := List.mem_of_find?_eq_some found
      exact not_mem_of_isIdentifier (valid block inside).1.2 (by decide)
  | none => exact not_mem_element_of_isType type (by decide)

theorem mapsType_obfuscatedType {text : String} (type : isType text = true)
    (unmixed : Unmixed table (ofText text).element) :
    MapsType (renamed (Mappings.ofClasses (table.map Block.mapping)).classNames)
      (obfuscatedType table text) text := by
  have parts := ofText_obfuscatedType valid type
  constructor
  · rw [parts]
    exact mapsElement_of_isType valid distinguishable type unmixed
  · rw [parts]

end Names

section Lookup

def SameMethod (line other : MethodLine) : Prop :=
  other.obfuscated = line.obfuscated ∧ other.returned = line.returned ∧
    other.arguments = line.arguments

instance (line other : MethodLine) : Decidable (SameMethod line other) :=
  inferInstanceAs (Decidable (_ ∧ _ ∧ _))

theorem key_eq_iff {line other : MethodLine} (lineValid : line.WellFormed)
    (otherValid : other.WellFormed) :
    (⟨other.obfuscated, other.descriptor⟩ : MethodKey) = ⟨line.obfuscated, line.descriptor⟩ ↔
      SameMethod line other := by
  rw [MethodKey.mk.injEq, SameMethod]
  refine and_congr_right fun _ => ⟨fun same => ?_, fun same => ?_⟩
  · exact encodeMethodType_injOn otherValid.types lineValid.types same
  · rw [MethodLine.descriptor, MethodLine.descriptor, same.1, same.2]

theorem find?_congr {Item : Type} {items : List Item} {first second : Item → Bool}
    (same : ∀ item ∈ items, first item = second item) : items.find? first = items.find? second := by
  induction items with
  | nil => rfl
  | cons item rest ih =>
      obtain ⟨here, later⟩ := List.forall_mem_cons.mp same
      rw [List.find?_cons, List.find?_cons, here, ih later]

theorem method?_mapping {block : Block} (valid : block.WellFormed) {line : MethodLine}
    (lineValid : line.WellFormed) :
    block.mapping.method? line.obfuscated line.descriptor =
      (block.methods.reverse.find? (SameMethod line ·)).map MethodLine.original := by
  have stored : block.mapping.method? line.obfuscated line.descriptor =
      Table.latest ⟨line.obfuscated, line.descriptor⟩ block.methodPairs :=
    (Table.recalls_ofList block.methodPairs).values _
  rw [stored, Table.latest, Block.methodPairs, ← List.map_reverse, Table.find_pairs]
  refine congrArg (Option.map MethodLine.original) (find?_congr fun other member => ?_)
  have otherValid := valid.2.2 other (List.mem_reverse.mp member)
  exact decide_eq_decide.mpr (key_eq_iff lineValid otherValid)

theorem method_of_own {renamer : Renamer} {owner name descriptor original : String}
    (own : renamer.ownMethod? name descriptor owner = some original) :
    renamer.method owner name descriptor = original := by
  simp [Renamer.method, Renamer.findMethod?, Hierarchy.find, Hierarchy.search, own]

end Lookup

/-- Descriptors keep overloads apart: they can be decoded, so no two types and no two lists of
types with a returned type have the same one. Two lines of a class are stored under one key only
if they give the same obfuscated name and the same types. -/
theorem overloads_kept_apart :
    (∀ returned other arguments others,
      (∀ text ∈ returned :: arguments, isType text = true) →
      (∀ text ∈ other :: others, isType text = true) →
      encodeMethodType returned arguments = encodeMethodType other others →
      returned = other ∧ arguments = others) ∧
    (∀ first second, isType first = true → isType second = true →
      encodeType first = encodeType second → first = second) ∧
    (∀ returned arguments, (∀ text ∈ returned :: arguments, isType text = true) →
      decodeType? (encodeType returned) = some returned ∧
      decodeMethodType? (encodeMethodType returned arguments) = some (returned, arguments)) ∧
    (∀ text otherText line other, methodLine? text = some line →
      methodLine? otherText = some other →
      ((⟨other.obfuscated, other.descriptor⟩ : MethodKey) = ⟨line.obfuscated, line.descriptor⟩ ↔
        SameMethod line other)) := by
  refine ⟨fun _ _ _ _ => encodeMethodType_injOn, fun _ _ => encodeType_injOn,
    fun returned arguments types => ⟨?_, decodeMethodType?_of_isType types⟩,
    fun text otherText line other read otherRead => ?_⟩
  · exact decodeType?_of_isType (types returned List.mem_cons_self)
  · exact key_eq_iff (methodLine?_eq_some_iff.mp read).1 (methodLine?_eq_some_iff.mp otherRead).1

theorem overloads_kept_apart_of_class :
    encodeMethodType "void" ["byte", "Z[]"] ≠ encodeMethodType "void" ["B", "boolean[]"] ∧
      encodeType "LL" ≠ encodeType "L.L" ∧
      decodeMethodType? "(B[[LB;LZ/L;)V" = some ("void", ["byte", "B[][]", "Z.L"]) ∧
      ∃ line other, methodLine? "    1:2:int go(B,byte[]) -> a" = some line ∧
        methodLine? "    int stop(B,byte[]) -> a" = some other ∧ SameMethod line other := by
  obtain ⟨lists, types, decoded, keys⟩ := overloads_kept_apart
  have read : methodLine? "    1:2:int go(B,byte[]) -> a" =
      some ⟨"int", "go", ["B", "byte[]"], "a"⟩ := by decide +kernel
  have otherRead : methodLine? "    int stop(B,byte[]) -> a" =
      some ⟨"int", "stop", ["B", "byte[]"], "a"⟩ := by decide +kernel
  refine ⟨fun same => ?_, fun same => ?_, ?_, _, _, read, otherRead, ?_⟩
  · exact absurd (lists _ _ _ _ (by decide) (by decide) same).2 (by decide)
  · exact absurd (types _ _ (by decide) (by decide) same) (by decide)
  · exact (decoded "void" ["byte", "B[][]", "Z.L"] (by decide)).2
  · exact (keys _ _ _ _ read otherRead).mp rfl

/-- What a mapping file stores about a method is found when a class file is asked about. The
descriptor with obfuscated class names is mapped to the one that the method is stored under, and
under it the class has the last line with the obfuscated name and the types of the method,
whatever the hierarchy says. -/
theorem stored_methods_found {bytes : List UInt8} {classes : List ClassMapping}
    (read : parse bytes = .ok classes) (distinguishable : Distinguishable (blocks bytes))
    {block : Block} (inside : block ∈ blocks bytes) {line : MethodLine}
    (listed : line ∈ block.methods)
    (unmixed : ∀ text ∈ line.returned :: line.arguments,
      Unmixed (blocks bytes) (ofText text).element) (hierarchy : Hierarchy) :
    Signature.map (Mappings.ofClasses classes).classNames
        (encodeMethodType (obfuscatedType (blocks bytes) line.returned)
          (line.arguments.map (obfuscatedType (blocks bytes)))) =
      encodeMethodType line.returned line.arguments ∧
    (block.methods.reverse.find? (SameMethod line ·)).map MethodLine.original =
      some ((Renamer.create (Mappings.ofClasses classes) hierarchy).method
        (internalName block.header.obfuscated) line.obfuscated
        (encodeMethodType line.returned line.arguments)) := by
  have valid := wellFormed_blocks bytes
  have blockValid := valid block inside
  have lineValid := blockValid.2.2 line listed
  obtain rfl := classes_of_parse read
  have ⟨returned, _, _, arguments⟩ := lineValid
  constructor
  · refine map_encodeMethodType (mapsType_obfuscatedType valid distinguishable returned
      (unmixed _ List.mem_cons_self)) ?_
    rw [List.forall₂_map_left_iff, List.forall₂_same]
    exact fun text member => mapsType_obfuscatedType valid distinguishable (arguments text member)
      (unmixed text (List.mem_cons_of_mem _ member))
  · have own : (Renamer.create (Mappings.ofClasses ((blocks bytes).map Block.mapping))
        hierarchy).ownMethod? line.obfuscated line.descriptor
        (internalName block.header.obfuscated) =
          (block.methods.reverse.find? (SameMethod line ·)).map MethodLine.original := by
      rw [Renamer.ownMethod?, Renamer.create, get?_of_block valid distinguishable inside,
        Option.bind_some, method?_mapping blockValid lineValid]
    cases found : block.methods.reverse.find? (SameMethod line ·) with
    | none =>
        have absent := List.find?_eq_none.mp found line (List.mem_reverse.mpr listed)
        exact absurd (by simp [SameMethod]) absent
    | some other =>
        rw [found, Option.map_some] at own
        rw [Option.map_some, ← MethodLine.descriptor, method_of_own own]

theorem stored_methods_found_of_class :
    ∃ classes,
      parse (Line.write ["com.A -> a:", "    com.A[] run(int,com.A) -> b"]) = .ok classes ∧
      Signature.map (Mappings.ofClasses classes).classNames "(ILa;)[La;" = "(ILcom/A;)[Lcom/A;" ∧
      (Renamer.create (Mappings.ofClasses classes) {}).method "a" "b" "(ILcom/A;)[Lcom/A;" =
        "run" := by
  let line : MethodLine := ⟨"com.A[]", "run", ["int", "com.A"], "b"⟩
  let block : Block := ⟨⟨"com.A", "a"⟩, [], [line]⟩
  have header : "com.A -> a:".toList = block.header.spelling := by decide
  have method : "    com.A[] run(int,com.A) -> b".toList = line.spelling [] := by decide
  have written : Written ["com.A -> a:", "    com.A[] run(int,com.A) -> b"]
      ([block].flatMap Block.entries) := .entry header (.entry ⟨[], .none, method⟩ .nil)
  have read := parse_of_written (by decide) (Line.holds_write (by decide)) written
  have whole : blocks (Line.write ["com.A -> a:", "    com.A[] run(int,com.A) -> b"]) =
      [block] := by decide +kernel
  have found := stored_methods_found read
    (by rw [whole]; exact ⟨by decide, by decide, by decide, by decide⟩)
    (by rw [whole]; exact List.mem_singleton_self block) (List.mem_singleton_self line)
    (by rw [whole]; decide) {}
  rw [whole] at found
  have given : encodeMethodType (obfuscatedType [block] line.returned)
      (line.arguments.map (obfuscatedType [block])) = "(ILa;)[La;" := by decide
  have stored : encodeMethodType line.returned line.arguments = "(ILcom/A;)[Lcom/A;" := by decide
  have owner : internalName block.header.obfuscated = "a" := by decide
  rw [given, stored, owner] at found
  exact ⟨_, read, found.1, (Option.some.inj found.2).symm⟩

end Mapping.Proguard

end Deobfuscation
