import Deobfuscation.Proofs.ProguardBlocks
import Deobfuscation.Proofs.SrgReading

/-!
A table of classes as tagged lines. The order of the lines is free as long as classes come in the
order of the table, each before its members, and members in theirs. Such lines are without fault
and mean the mappings of the table.
-/

namespace Deobfuscation.Mapping.Srg

open Text SourceType
open Proguard (ClassLine FieldLine MethodLine Block)

theorem trim_eq_self {before after : List Char} (nonempty : after ≠ []) (free : ' ' ∉ after) :
    ((before ++ after).reverse.dropWhile (· = ' ')).reverse = before ++ after := by
  cases after using List.reverseRecOn with
  | nil => exact absurd rfl nonempty
  | append_singleton front char =>
      have last : ¬ char = ' ' := fun same => free (by simp [same])
      rw [← List.append_assoc, List.reverse_concat,
        List.dropWhile_cons_of_neg (by simpa using last), List.reverse_cons, List.reverse_reverse]

/-- The fields of a line are those it was put together from. -/
theorem fields_intercalate (parts : List String) {last : String}
    (free : ∀ part ∈ parts ++ [last], ' ' ∉ part.toList) (nonempty : last.toList ≠ []) :
    fields (" ".intercalate (parts ++ [last])) = parts ++ [last] := by
  have chars : (" ".intercalate (parts ++ [last])).toList =
      [' '].intercalate ((parts ++ [last]).map String.toList) := String.toList_intercalate
  have pieces : ∀ part ∈ (parts ++ [last]).map String.toList, ' ' ∉ part := by
    intro part member
    obtain ⟨text, inside, rfl⟩ := List.mem_map.mp member
    exact free text inside
  obtain ⟨before, whole⟩ := intercalate_concat ' ' (parts.map String.toList) last.toList
  have untrimmed : ((" ".intercalate (parts ++ [last])).toList.reverse.dropWhile
      (· = ' ')).reverse = (" ".intercalate (parts ++ [last])).toList := by
    rw [chars, List.map_append, List.map_singleton, whole]
    exact trim_eq_self nonempty (free last (by simp))
  rw [fields, untrimmed, chars, splitAll_intercalate (by simp) pieces, List.map_map]
  simp

section Rows

/-- The content of a tagged line: a declaration, or a member with its class. -/
inductive Row where
  | declare (owner : ClassLine)
  | field (owner : ClassLine) (line : FieldLine)
  | method (owner : ClassLine) (line : MethodLine) (descriptor : String)
  deriving DecidableEq, Repr

namespace Row

def owner : Row → ClassLine
  | declare owner => owner
  | field owner _ => owner
  | method owner _ _ => owner

/-- Class names are in internal form and names of members as they are. The obfuscated descriptor
of a method may be any text. -/
def parts : Row → List String
  | declare owner => ["CL:", internalName owner.obfuscated, internalName owner.original]
  | field owner line =>
      ["FD:", internalName owner.obfuscated ++ "/" ++ line.obfuscated,
        internalName owner.original ++ "/" ++ line.original]
  | method owner line descriptor =>
      ["MD:", internalName owner.obfuscated ++ "/" ++ line.obfuscated, descriptor,
        internalName owner.original ++ "/" ++ line.original, line.descriptor]

def text (row : Row) : String := " ".intercalate row.parts

def declared? : Row → Option ClassLine
  | declare owner => some owner
  | _ => none

def field? (owner : ClassLine) : Row → Option FieldLine
  | field other line => if other = owner then some line else none
  | _ => none

def method? (owner : ClassLine) : Row → Option MethodLine
  | method other line _ => if other = owner then some line else none
  | _ => none

def WellFormed : Row → Prop
  | declare owner => owner.WellFormed
  | field owner line => owner.WellFormed ∧ line.WellFormed
  | method owner line descriptor =>
      owner.WellFormed ∧ line.WellFormed ∧ ' ' ∉ descriptor.toList

theorem owned_of_field? {owner : ClassLine} (row : Row) (line : FieldLine)
    (found : row.field? owner = some line) : row.declared? = none ∧ row.owner = owner := by
  cases row with
  | declare => cases found
  | method => cases found
  | field other given =>
      simp only [field?] at found
      split_ifs at found with same
      exact ⟨rfl, same⟩

theorem owned_of_method? {owner : ClassLine} (row : Row) (line : MethodLine)
    (found : row.method? owner = some line) : row.declared? = none ∧ row.owner = owner := by
  cases row with
  | declare => cases found
  | field => cases found
  | method other given =>
      simp only [method?] at found
      split_ifs at found with same
      exact ⟨rfl, same⟩

end Row

/-- The rows are those of the table: its classes in order, each before its members, and the fields
and the methods of each class in order. -/
structure Lists (rows : List Row) (table : List Block) : Prop where
  classes : rows.filterMap Row.declared? = table.map Block.header
  fields : ∀ block ∈ table, rows.filterMap (Row.field? block.header) = block.fields
  methods : ∀ block ∈ table, rows.filterMap (Row.method? block.header) = block.methods
  order : ∀ before row after, rows = before ++ row :: after → row.declared? = none →
    .declare row.owner ∈ before
  descriptors : ∀ owner line descriptor, .method owner line descriptor ∈ rows →
    ' ' ∉ descriptor.toList

variable {rows : List Row} {table : List Block}

theorem Lists.owner_mem (lists : Lists rows table) {row : Row} (member : row ∈ rows) :
    ∃ block ∈ table, block.header = row.owner := by
  have declared : ∀ owner, Row.declare owner ∈ rows → ∃ block ∈ table, block.header = owner := by
    intro owner inside
    have listed : owner ∈ rows.filterMap Row.declared? := List.mem_filterMap.mpr ⟨_, inside, rfl⟩
    rw [lists.classes] at listed
    exact List.mem_map.mp listed
  cases kind : row.declared? with
  | some owner =>
      cases row with
      | declare owner => exact declared owner member
      | field => cases kind
      | method => cases kind
  | none =>
      obtain ⟨before, after, rfl⟩ := List.append_of_mem member
      have earlier := lists.order before row after rfl kind
      exact declared row.owner (List.mem_append_left _ earlier)

theorem Lists.wellFormed (lists : Lists rows table) (valid : ∀ block ∈ table, block.WellFormed) :
    ∀ row ∈ rows, row.WellFormed := by
  intro row member
  obtain ⟨block, inside, same⟩ := lists.owner_mem member
  obtain ⟨header, fields, methods⟩ := valid block inside
  have listedFields := lists.fields block inside
  have listedMethods := lists.methods block inside
  rw [same] at header listedFields listedMethods
  cases row with
  | declare owner => exact header
  | field owner line =>
      have listed : line ∈ block.fields := by
        rw [← listedFields]
        exact List.mem_filterMap.mpr ⟨_, member, by simp [Row.field?, Row.owner]⟩
      exact ⟨header, fields line listed⟩
  | method owner line descriptor =>
      have listed : line ∈ block.methods := by
        rw [← listedMethods]
        exact List.mem_filterMap.mpr ⟨_, member, by simp [Row.method?, Row.owner]⟩
      exact ⟨header, methods line listed, lists.descriptors owner line descriptor member⟩

end Rows

section Texts

theorem internalName_spaceless {name : String}
    (identifier : Proguard.isIdentifier name.toList = true) : ' ' ∉ (internalName name).toList :=
  not_mem_internalName (Proguard.not_mem_of_isIdentifier identifier (by decide)) (by decide)

theorem member_spaceless {owner name : String}
    (ownerIdentifier : Proguard.isIdentifier owner.toList = true)
    (identifier : Proguard.isIdentifier name.toList = true) :
    ' ' ∉ (internalName owner ++ "/" ++ name).toList := by
  have inName : ' ' ∉ name.toList := Proguard.not_mem_of_isIdentifier identifier (by decide)
  simp [internalName_spaceless ownerIdentifier, inName]

theorem internalName_ne_nil {name : String}
    (identifier : Proguard.isIdentifier name.toList = true) : (internalName name).toList ≠ [] := by
  simpa [internalName_toList] using (Proguard.isIdentifier_iff.mp identifier).1

theorem encodeType_spaceless {text : String} (type : Proguard.isType text = true) :
    ' ' ∉ (encodeType text).toList := by
  have inElement : ' ' ∉ (ofText text).element.toList :=
    Proguard.not_mem_element_of_isType type (by decide)
  have inCodes : ∀ pair ∈ codes, ' ' ≠ pair.2 := by decide
  rcases elementDescriptor_cases (ofText text).element with ⟨code, coded, spelled⟩ | ⟨-, spelled⟩
  · simpa [encodeType, descriptor, spelled] using inCodes _ coded
  · simpa [encodeType, descriptor, spelled] using not_mem_internalName inElement (by decide)

theorem descriptor_spaceless {line : MethodLine} (valid : line.WellFormed) :
    ' ' ∉ line.descriptor.toList := by
  obtain ⟨returned, -, -, arguments⟩ := valid
  have inArguments : ∀ text ∈ line.arguments, ' ' ∉ (encodeType text).toList :=
    fun text member => encodeType_spaceless (arguments text member)
  simpa [MethodLine.descriptor, encodeMethodType, encodeType_spaceless returned] using inArguments

theorem fields_text {row : Row} (valid : row.WellFormed) : fields row.text = row.parts := by
  cases row with
  | declare owner =>
      obtain ⟨original, obfuscated⟩ := valid
      refine fields_intercalate ["CL:", _] ?_ (internalName_ne_nil original)
      simp [internalName_spaceless original, internalName_spaceless obfuscated]
  | field owner line =>
      obtain ⟨⟨original, obfuscated⟩, -, name, obfuscatedName⟩ := valid
      refine fields_intercalate ["FD:", _] ?_ (by simp)
      simp [-String.toList_append, member_spaceless original name,
        member_spaceless obfuscated obfuscatedName]
  | method owner line descriptor =>
      obtain ⟨⟨original, obfuscated⟩, known, given⟩ := valid
      have present : line.descriptor.toList ≠ [] := by
        simp [MethodLine.descriptor, encodeMethodType]
      refine fields_intercalate ["MD:", _, _, _] ?_ present
      simp [-String.toList_append, member_spaceless original known.2.1,
        member_spaceless obfuscated known.2.2.1, given, descriptor_spaceless known]

/-- Both names of a class, in internal form. -/
def names (owner : ClassLine) : String × String :=
  (internalName owner.obfuscated, internalName owner.original)

theorem map_names_fst (owners : List ClassLine) :
    (owners.map names).map Prod.fst = owners.map fun owner => internalName owner.obfuscated := by
  simp [names]

theorem declared?_text {row : Row} (valid : row.WellFormed) :
    declared? row.text = row.declared?.map names := by
  unfold declared?
  rw [fields_text valid]
  cases row <;> simp [Row.parts, Row.declared?, names]

theorem names?_of_identifiers {obfuscated original : String}
    (free : Proguard.isIdentifier obfuscated.toList = true)
    (originalFree : Proguard.isIdentifier original.toList = true) (wanted : String)
    (owner originalOwner : String) :
    names? wanted (owner ++ "/" ++ obfuscated) (originalOwner ++ "/" ++ original) =
      if owner = wanted then some (obfuscated, original) else none := by
  rw [names?, owned?_append (Proguard.not_mem_of_isIdentifier free (by decide)),
    owned?_append (Proguard.not_mem_of_isIdentifier originalFree (by decide))]

/-- Rows of other classes are told apart by the obfuscated names. -/
theorem field?_text {row : Row} (valid : row.WellFormed) {owner : ClassLine}
    (apart : internalName row.owner.obfuscated = internalName owner.obfuscated →
      row.owner = owner) :
    field? (internalName owner.obfuscated) row.text =
      (row.field? owner).map fun line => (line.obfuscated, line.original) := by
  unfold field?
  rw [fields_text valid]
  cases row with
  | declare => simp [Row.parts, Row.field?]
  | method => simp [Row.parts, Row.field?]
  | field other line =>
      obtain ⟨-, -, original, obfuscated⟩ := valid
      simp only [Row.parts, names?_of_identifiers obfuscated original, Row.field?]
      by_cases same : other = owner
      · simp [same]
      · have different : ¬ internalName other.obfuscated = internalName owner.obfuscated :=
          fun equal => same (apart equal)
        rw [if_neg same, if_neg different, Option.map_none]

theorem method?_text {row : Row} (valid : row.WellFormed) {owner : ClassLine}
    (apart : internalName row.owner.obfuscated = internalName owner.obfuscated →
      row.owner = owner) :
    method? (internalName owner.obfuscated) row.text =
      (row.method? owner).map fun line => (⟨line.obfuscated, line.descriptor⟩, line.original) := by
  unfold method?
  rw [fields_text valid]
  cases row with
  | declare => simp [Row.parts, Row.method?]
  | field => simp [Row.parts, Row.method?]
  | method other line =>
      obtain ⟨-, ⟨-, original, obfuscated, -⟩, -⟩ := valid
      simp only [Row.parts, names?_of_identifiers obfuscated original, Row.method?]
      by_cases same : other = owner
      · simp [same]
      · have different : ¬ internalName other.obfuscated = internalName owner.obfuscated :=
          fun equal => same (apart equal)
        rw [if_neg same, if_neg different, Option.map_none, Option.map_none]

theorem declarations_texts {rows : List Row} (valid : ∀ row ∈ rows, row.WellFormed) :
    declarations (rows.map Row.text) = (rows.filterMap Row.declared?).map names := by
  rw [declarations, List.filterMap_map, List.map_filterMap]
  exact List.filterMap_congr fun row member => declared?_text (valid row member)

end Texts

section Agreement

variable {rows : List Row} {table : List Block}

/-- No class is declared twice. -/
theorem Lists.once (lists : Lists rows table) (valid : ∀ block ∈ table, block.WellFormed)
    (distinct : (table.map fun block => block.header.obfuscated).Nodup) :
    ((rows.filterMap Row.declared?).map fun owner => internalName owner.obfuscated).Nodup := by
  rw [lists.classes, List.map_map]
  exact Block.nodup_internalName valid distinct

section Once

variable (lists : Lists rows table)
  (once : ((rows.filterMap Row.declared?).map fun owner => internalName owner.obfuscated).Nodup)

include lists once

/-- Classes of the rows with one obfuscated name are one class. -/
theorem Lists.owner_eq {row : Row}
    (member : row ∈ rows) {block : Block} (inside : block ∈ table)
    (same : internalName row.owner.obfuscated = internalName block.header.obfuscated) :
    row.owner = block.header := by
  obtain ⟨other, otherInside, header⟩ := lists.owner_mem member
  rw [← header] at same ⊢
  rw [lists.classes, List.map_map] at once
  exact congrArg Block.header (List.inj_on_of_nodup_map once otherInside inside same)

/-- All members of a class stand behind its only declaration. -/
theorem Lists.split {block : Block} (inside : block ∈ table) :
    ∃ before after, rows = before ++ .declare block.header :: after ∧
      (∀ row ∈ before, row.declared? = none → row.owner ≠ block.header) ∧
      ∀ row ∈ after, ∀ other, row.declared? = some other →
        internalName other.obfuscated ≠ internalName block.header.obfuscated := by
  have listed : block.header ∈ rows.filterMap Row.declared? := by
    rw [lists.classes]
    exact List.mem_map.mpr ⟨block, inside, rfl⟩
  have declared : Row.declare block.header ∈ rows := by
    obtain ⟨row, member, kind⟩ := List.mem_filterMap.mp listed
    cases row with
    | declare owner => exact Option.some.inj kind ▸ member
    | field => cases kind
    | method => cases kind
  obtain ⟨before, after, rfl⟩ := List.append_of_mem declared
  have head : Row.declared? (.declare block.header) = some block.header := rfl
  rw [List.filterMap_append, List.filterMap_cons_some head, List.map_append, List.map_cons,
    List.nodup_append, List.nodup_cons] at once
  obtain ⟨-, ⟨fresh, -⟩, disjoint⟩ := once
  refine ⟨before, after, rfl, fun row member kind same => ?_, fun row member other kind same => ?_⟩
  -- a member this early would have a declaration before it, which would be a second one
  · obtain ⟨first, second, rfl⟩ := List.append_of_mem member
    have earlier := lists.order first row (second ++ .declare block.header :: after) (by simp) kind
    rw [same] at earlier
    refine disjoint _ (List.mem_map.mpr ⟨block.header, ?_, rfl⟩) _ List.mem_cons_self rfl
    exact List.mem_filterMap.mpr ⟨_, List.mem_append_left _ earlier, head⟩
  · exact fresh (List.mem_map.mpr ⟨other, List.mem_filterMap.mpr ⟨row, member, kind⟩, same⟩)

end Once

theorem not_misplaced {earlier : List String} {owner name originalOwner originalName : String}
    (free : '/' ∉ name.toList) (originalFree : '/' ∉ originalName.toList)
    (known : Table.latest owner (declarations earlier) = some originalOwner) (fault : LineFault) :
    ¬ Misplaced earlier (owner ++ "/" ++ name) (originalOwner ++ "/" ++ originalName) fault := by
  intro misplaced
  have first := owned?_append free owner
  have second := owned?_append originalFree originalOwner
  generalize owner ++ "/" ++ name = obfuscated at misplaced first
  generalize originalOwner ++ "/" ++ originalName = original at misplaced second
  cases misplaced with
  | noOwner missing =>
      rw [← owned?_eq_none_iff, ← owned?_eq_none_iff, first, second] at missing
      simp at missing
  | undeclared otherFree _ unknown =>
      rw [owned?_append otherFree] at first
      obtain ⟨rfl, -⟩ := Prod.mk.inj (Option.some.inj first)
      rw [known] at unknown
      cases unknown
  | ownerMismatch otherFree otherOriginalFree declared different =>
      rw [owned?_append otherFree] at first
      rw [owned?_append otherOriginalFree] at second
      obtain ⟨rfl, -⟩ := Prod.mk.inj (Option.some.inj first)
      obtain ⟨rfl, -⟩ := Prod.mk.inj (Option.some.inj second)
      rw [known] at declared
      exact different (Option.some.inj declared).symm

theorem latest_of_declared {before : List Row} (valid : ∀ row ∈ before, row.WellFormed)
    (once : ((before.filterMap Row.declared?).map fun owner => internalName owner.obfuscated).Nodup)
    {owner : ClassLine} (declared : Row.declare owner ∈ before) :
    Table.latest (internalName owner.obfuscated) (declarations (before.map Row.text)) =
      some (internalName owner.original) := by
  have listed : owner ∈ before.filterMap Row.declared? := List.mem_filterMap.mpr ⟨_, declared, rfl⟩
  rw [← map_names_fst] at once
  rw [declarations_texts valid]
  exact Table.latest_of_mem once (List.mem_map.mpr ⟨owner, listed, rfl⟩)

theorem faultless_texts (lists : Lists rows table) (valid : ∀ row ∈ rows, row.WellFormed)
    (once : ((rows.filterMap Row.declared?).map fun owner => internalName owner.obfuscated).Nodup) :
    Faultless (rows.map Row.text) := by
  intro before text after split fault faulty
  obtain ⟨earlier, rest, rfl, rfl, later⟩ := List.map_eq_append_iff.mp split
  obtain ⟨row, others, rfl, rfl, rfl⟩ := List.map_eq_cons_iff.mp later
  have parts := fields_text (valid row (by simp))
  have known : row.declared? = none →
      Table.latest (internalName row.owner.obfuscated) (declarations (earlier.map Row.text)) =
        some (internalName row.owner.original) := by
    intro kind
    refine latest_of_declared (fun other member => valid other (by simp [member])) ?_
      (lists.order earlier row others rfl kind)
    rw [List.filterMap_append, List.map_append] at once
    exact once.of_append_left
  have here := valid row (by simp)
  cases faulty with
  | count miscounted =>
      rw [parts] at miscounted
      cases row <;> simp [Miscounted, Row.parts] at miscounted
  | member line misplaced =>
      unfold members? at line
      rw [parts] at line
      cases row with
      | declare => simp [Row.parts] at line
      | field owner field =>
          obtain ⟨-, -, original, obfuscated⟩ := here
          simp only [Row.parts, Option.some.injEq, Prod.mk.injEq] at line
          obtain ⟨rfl, rfl⟩ := line
          exact not_misplaced (Proguard.not_mem_of_isIdentifier obfuscated (by decide))
            (Proguard.not_mem_of_isIdentifier original (by decide)) (known rfl) fault misplaced
      | method owner method descriptor =>
          obtain ⟨-, ⟨-, original, obfuscated, -⟩, -⟩ := here
          simp only [Row.parts, Option.some.injEq, Prod.mk.injEq] at line
          obtain ⟨rfl, rfl⟩ := line
          exact not_misplaced (Proguard.not_mem_of_isIdentifier obfuscated (by decide))
            (Proguard.not_mem_of_isIdentifier original (by decide)) (known rfl) fault misplaced

/-- What stands before the declaration of a class gives no member of it. -/
theorem filterMap_members {Member : Type} {owner : ClassLine} {find? : Row → Option Member}
    (owned : ∀ row member, find? row = some member → row.declared? = none ∧ row.owner = owner)
    {before : List Row} (others : ∀ row ∈ before, row.declared? = none → row.owner ≠ owner)
    (after : List Row) :
    (before ++ .declare owner :: after).filterMap find? = after.filterMap find? := by
  have early : before.filterMap find? = [] := by
    refine List.filterMap_eq_nil_iff.mpr fun row member => ?_
    cases found : find? row with
    | none => rfl
    | some value =>
        obtain ⟨kind, same⟩ := owned row value found
        exact absurd same (others row member kind)
  have here : find? (.declare owner) = none := by
    cases found : find? (.declare owner) with
    | none => rfl
    | some value => cases (owned _ value found).1
  rw [List.filterMap_append, early, List.filterMap_cons_none here, List.nil_append]

theorem describes_block (lists : Lists rows table) (valid : ∀ row ∈ rows, row.WellFormed)
    (once : ((rows.filterMap Row.declared?).map fun owner => internalName owner.obfuscated).Nodup)
    {block : Block} (inside : block ∈ table) :
    Describes (rows.map Row.text) (internalName block.header.obfuscated) block.mapping := by
  have apart : ∀ row ∈ rows, internalName row.owner.obfuscated =
      internalName block.header.obfuscated → row.owner = block.header :=
    fun row member same => lists.owner_eq once member inside same
  obtain ⟨before, after, rfl, members, declarations⟩ := lists.split once inside
  have lines : since (internalName block.header.obfuscated)
      ((before ++ .declare block.header :: after).map Row.text) = after.map Row.text := by
    rw [List.map_append, List.map_cons]
    refine since_append ?_ (fun text member => ?_) _
    · rw [declared?_text (valid _ (by simp))]
      rfl
    · obtain ⟨row, later, rfl⟩ := List.mem_map.mp member
      rw [declared?_text (valid row (by simp [later]))]
      cases kind : row.declared? with
      | none => simp
      | some other => simpa [names] using declarations row later other kind
  constructor
  · rfl
  · exact latest_of_declared valid once (by simp)
  · have fields := lists.fields block inside
    rw [filterMap_members Row.owned_of_field? members] at fields
    have pairs : after.filterMap (field? (internalName block.header.obfuscated) ∘ Row.text) =
        block.fieldPairs := by
      rw [Block.fieldPairs, ← fields, List.map_filterMap]
      exact List.filterMap_congr fun row later =>
        field?_text (valid row (by simp [later])) (apart row (by simp [later]))
    rw [lines, List.filterMap_map, pairs]
    exact Table.recalls_ofList block.fieldPairs
  · have methods := lists.methods block inside
    rw [filterMap_members Row.owned_of_method? members] at methods
    have pairs : after.filterMap (method? (internalName block.header.obfuscated) ∘ Row.text) =
        block.methodPairs := by
      rw [Block.methodPairs, ← methods, List.map_filterMap]
      exact List.filterMap_congr fun row later =>
        method?_text (valid row (by simp [later])) (apart row (by simp [later]))
    rw [lines, List.filterMap_map, pairs]
    exact Table.recalls_ofList block.methodPairs

theorem parse_of_lists {bytes : List UInt8} (holds : Line.Holds bytes (rows.map Row.text))
    (lists : Lists rows table) (valid : ∀ block ∈ table, block.WellFormed)
    (distinct : (table.map fun block => block.header.obfuscated).Nodup) :
    (parse bytes).2 = .ok (table.map Block.mapping) := by
  have rowsValid := lists.wellFormed valid
  have once := lists.once valid distinct
  refine (parse_eq_ok_iff_described holds).mpr ⟨faultless_texts lists rowsValid once, ?_⟩
  rw [declarations_texts rowsValid, Table.eraseDups_of_nodup (by rwa [map_names_fst]),
    map_names_fst, lists.classes, List.map_map, List.forall₂_map_left_iff,
    List.forall₂_map_right_iff, List.forall₂_same]
  exact fun block inside => describes_block lists rowsValid once inside

end Agreement

end Deobfuscation.Mapping.Srg
