import Deobfuscation.Proofs.Spelling

/-!
Reading class files. What is read is well-formed and spelled by the bytes that were taken, and
every spelling of a well-formed class file is read as this class file, whatever stands behind
it. So writing and reading undo each other as far as the format allows, and an input that is
cut short fails at its end.
-/

namespace Deobfuscation

namespace Reader

section Entries

theorem sound_handler : Sound handler fun entry taken => taken = entry.bytes := by
  apply sound_word16.bind
  rintro start _ rfl
  apply sound_word16.bind
  rintro stop _ rfl
  apply sound_word16.bind
  rintro handler _ rfl
  apply sound_word16.map
  rintro catchType _ rfl
  simp only [Handler.bytes, List.append_assoc]

theorem reads_handler (entry : Handler) : Reads handler entry entry.bytes := by
  simp only [Handler.bytes, List.append_assoc]
  exact (reads_word16 _).bind ((reads_word16 _).bind ((reads_word16 _).bind
    ((reads_word16 _).map _)))

theorem outlasts_handler : Outlasts handler handler :=
  outlasts_word16.bind fun _ => outlasts_word16.bind fun _ => outlasts_word16.bind fun _ =>
    outlasts_word16.map _

theorem sound_innerClass : Sound innerClass fun entry taken => taken = entry.bytes := by
  apply sound_word16.bind
  rintro inner _ rfl
  apply sound_word16.bind
  rintro outer _ rfl
  apply sound_word16.bind
  rintro name _ rfl
  apply sound_word16.map
  rintro flags _ rfl
  simp only [InnerClass.bytes, List.append_assoc]

theorem reads_innerClass (entry : InnerClass) : Reads innerClass entry entry.bytes := by
  simp only [InnerClass.bytes, List.append_assoc]
  exact (reads_word16 _).bind ((reads_word16 _).bind ((reads_word16 _).bind
    ((reads_word16 _).map _)))

theorem outlasts_innerClass : Outlasts innerClass innerClass :=
  outlasts_word16.bind fun _ => outlasts_word16.bind fun _ => outlasts_word16.bind fun _ =>
    outlasts_word16.map _

theorem sound_localVariable : Sound localVariable fun entry taken => taken = entry.bytes := by
  apply sound_word16.bind
  rintro start _ rfl
  apply sound_word16.bind
  rintro length _ rfl
  apply sound_word16.bind
  rintro name _ rfl
  apply sound_word16.bind
  rintro type _ rfl
  apply sound_word16.map
  rintro slot _ rfl
  simp only [Local.bytes, List.append_assoc]

theorem reads_localVariable (entry : Local) : Reads localVariable entry entry.bytes := by
  simp only [Local.bytes, List.append_assoc]
  exact (reads_word16 _).bind ((reads_word16 _).bind ((reads_word16 _).bind
    ((reads_word16 _).bind ((reads_word16 _).map _))))

theorem outlasts_localVariable : Outlasts localVariable localVariable :=
  outlasts_word16.bind fun _ => outlasts_word16.bind fun _ => outlasts_word16.bind fun _ =>
    outlasts_word16.bind fun _ => outlasts_word16.map _

end Entries

section Attributes

variable {pool : Pool}

theorem sound_attributeKind (name : UInt16) : Sound (attributeKind pool name) fun kind taken =>
    taken = [] ∧ ∃ bytes ∈ Attribute.nameAt? pool name, kind.Named bytes := by
  intro bytes kind rest read
  unfold attributeKind at read
  cases found : pool.get? name with
  | none =>
      rw [found] at read
      cases read
  | some constant =>
      rw [found] at read
      cases constant with
      | utf8 text =>
          cases read
          exact ⟨[], rfl, rfl, text, by simp [Attribute.nameAt?, found],
            Attribute.Kind.ofName_eq_iff.mp rfl⟩
      | _ => cases read

theorem reads_attributeKind {name : UInt16} {kind : Attribute.Kind}
    (named : ∃ bytes ∈ Attribute.nameAt? pool name, kind.Named bytes) :
    Reads (attributeKind pool name) kind [] := by
  obtain ⟨bytes, found, named⟩ := named
  intro rest
  unfold Attribute.nameAt? at found
  split at found
  · rename_i text stands
    cases found
    rw [attributeKind, stands, ← Attribute.Kind.ofName_eq_iff.mpr named]
    rfl
  · cases found

theorem outlasts_attributeKind (name : UInt16) :
    Outlasts (attributeKind pool name) (attributeKind pool name) := by
  unfold attributeKind
  split
  · exact outlasts_pure _
  · exact outlasts_fail _
  · exact outlasts_fail _

/-- What is read as an attribute is well-formed and spelled by what is taken. -/
def AttributeRead (pool : Pool) (item : Attribute) (taken : List UInt8) : Prop :=
  item.WellFormed pool ∧ item.Spelled taken

theorem sound_attribute (depth : Nat) :
    Sound (attributeWithin pool depth) (AttributeRead pool) := by
  induction depth with
  | zero =>
      intro bytes item rest read
      cases read
  | succ depth ih =>
      apply sound_word16.bind
      rintro name _ rfl
      apply (sound_attributeKind name).bind
      rintro kind _ ⟨rfl, named⟩
      cases kind with
      | code =>
          apply sound_word32.bind
          rintro length _ rfl
          apply sound_word16.bind
          rintro maxStack _ rfl
          apply sound_word16.bind
          rintro maxLocals _ rfl
          apply sound_sized32.bind
          rintro body _ ⟨bodySmall, rfl⟩
          apply (sound_counted16_eq sound_handler).bind
          rintro handlers _ ⟨handlersSmall, rfl⟩
          apply (sound_counted16 ih).map
          rintro attributes _ ⟨attributesSmall, content, turn, rfl⟩
          have nested := turn.forall_mem fun item part read => read.1
          exact ⟨⟨named, ⟨bodySmall, handlersSmall, attributesSmall⟩,
            Attribute.allWellFormed_iff.mpr nested⟩, length, content,
            Attribute.spelledAll_iff.mpr (turn.imp fun _ _ _ _ read => read.2), rfl⟩
      | innerClasses =>
          apply sound_word32.bind
          rintro length _ rfl
          apply (sound_counted16_eq sound_innerClass).map
          rintro classes _ ⟨small, rfl⟩
          exact ⟨⟨named, small⟩, length, rfl⟩
      | signature =>
          apply sound_word32.bind
          rintro length _ rfl
          apply sound_word16.map
          rintro index _ rfl
          exact ⟨⟨named, trivial⟩, length, rfl⟩
      | localVariables =>
          apply sound_word32.bind
          rintro length _ rfl
          apply (sound_counted16_eq sound_localVariable).map
          rintro table _ ⟨small, rfl⟩
          exact ⟨⟨named, small⟩, length, rfl⟩
      | localVariableTypes =>
          apply sound_word32.bind
          rintro length _ rfl
          apply (sound_counted16_eq sound_localVariable).map
          rintro table _ ⟨small, rfl⟩
          exact ⟨⟨named, small⟩, length, rfl⟩
      | other =>
          apply sound_sized32.map
          rintro info _ ⟨small, rfl⟩
          exact ⟨⟨named, small⟩, rfl⟩

/-- An attribute is read from each of its spellings, if the depth is not below its length. -/
theorem reads_attributeWithin {item : Attribute} {taken : List UInt8}
    (valid : item.WellFormed pool) (spelled : item.Spelled taken) {depth : Nat}
    (deep : taken.length ≤ depth + 1) : Reads (attributeWithin pool (depth + 1)) item taken := by
  induction item using Attribute.nestedInduction generalizing taken depth with
  | code name maxStack maxLocals body handlers attributes nested =>
      obtain ⟨named, ⟨bodySmall, handlersSmall, attributesSmall⟩, valid⟩ := valid
      obtain ⟨length, content, inside, rfl⟩ := spelled
      simp only [List.length_append, length_bytes16] at deep
      -- the nested ones are read with one level less
      obtain ⟨depth, rfl⟩ : ∃ below, depth = below + 1 := Nat.exists_eq_add_one.mpr (by omega)
      have each : InTurn (Reads (attributeWithin pool (depth + 1))) attributes content := by
        apply (Attribute.spelledAll_iff.mp inside).imp
        intro item member part short itemSpelled
        exact nested item member (Attribute.allWellFormed_iff.mp valid item member) itemSpelled
          (by omega)
      exact (reads_word16 name).bind ((reads_attributeKind named).bind
        ((reads_word32 length).bind ((reads_word16 maxStack).bind ((reads_word16 maxLocals).bind
          ((reads_sized32 bodySmall).bind ((reads_counted16_eq handlersSmall reads_handler).bind
            ((reads_counted16 attributesSmall each).map _)))))))
  | innerClasses name classes =>
      obtain ⟨length, rfl⟩ := spelled
      exact (reads_word16 name).bind ((reads_attributeKind valid.1).bind
        ((reads_word32 length).bind ((reads_counted16_eq valid.2 reads_innerClass).map _)))
  | signature name index =>
      obtain ⟨length, rfl⟩ := spelled
      exact (reads_word16 name).bind ((reads_attributeKind valid.1).bind
        ((reads_word32 length).bind ((reads_word16 index).map _)))
  | localVariables name table =>
      obtain ⟨length, rfl⟩ := spelled
      exact (reads_word16 name).bind ((reads_attributeKind valid.1).bind
        ((reads_word32 length).bind ((reads_counted16_eq valid.2 reads_localVariable).map _)))
  | localVariableTypes name table =>
      obtain ⟨length, rfl⟩ := spelled
      exact (reads_word16 name).bind ((reads_attributeKind valid.1).bind
        ((reads_word32 length).bind ((reads_counted16_eq valid.2 reads_localVariable).map _)))
  | other name info =>
      obtain rfl := spelled
      exact (reads_word16 name).bind ((reads_attributeKind valid.1).bind
        ((reads_sized32 valid.2).map _))

theorem reads_attribute {item : Attribute} {taken : List UInt8} (valid : item.WellFormed pool)
    (spelled : item.Spelled taken) {depth : Nat} (deep : taken.length ≤ depth) :
    Reads (attributeWithin pool depth) item taken := by
  have long := item.six_le_length
  rw [← spelled.length] at long
  obtain ⟨depth, rfl⟩ : ∃ below, depth = below + 1 := Nat.exists_eq_add_one.mpr (by omega)
  exact reads_attributeWithin valid spelled deep

theorem reads_attributes {items : List Attribute} {taken : List UInt8}
    (valid : ∀ item ∈ items, item.WellFormed pool) (turn : InTurn Attribute.Spelled items taken)
    {depth : Nat} (deep : taken.length ≤ depth) :
    InTurn (Reads (attributeWithin pool depth)) items taken := by
  apply turn.imp
  intro item member part short spelled
  exact reads_attribute (valid item member) spelled (by omega)

/-- A deeper reader only finds more. -/
theorem outlasts_attribute {depth deeper : Nat} (below : depth ≤ deeper) :
    Outlasts (attributeWithin pool deeper) (attributeWithin pool depth) := by
  induction depth generalizing deeper with
  | zero =>
      -- a reader without depth ends at once, which is no answer to keep
      intro bytes more
      exact Or.inl rfl
  | succ depth ih =>
      obtain ⟨deeper, rfl⟩ : ∃ less, deeper = less + 1 := Nat.exists_eq_add_one.mpr (by omega)
      apply outlasts_word16.bind
      intro name
      apply (outlasts_attributeKind name).bind
      intro kind
      cases kind with
      | code =>
          exact outlasts_word32.bind fun _ => outlasts_word16.bind fun _ =>
            outlasts_word16.bind fun _ => outlasts_sized32.bind fun _ =>
              (outlasts_counted16 outlasts_handler).bind fun _ =>
                (outlasts_counted16 (ih (by omega))).map _
      | innerClasses =>
          exact outlasts_word32.bind fun _ => (outlasts_counted16 outlasts_innerClass).map _
      | signature => exact outlasts_word32.bind fun _ => outlasts_word16.map _
      | localVariables =>
          exact outlasts_word32.bind fun _ => (outlasts_counted16 outlasts_localVariable).map _
      | localVariableTypes =>
          exact outlasts_word32.bind fun _ => (outlasts_counted16 outlasts_localVariable).map _
      | other => exact outlasts_sized32.map _

theorem sound_member (depth : Nat) : Sound (member pool depth) fun member taken =>
    member.WellFormed pool ∧ member.Spelled taken := by
  apply sound_word16.bind
  rintro access _ rfl
  apply sound_word16.bind
  rintro name _ rfl
  apply sound_word16.bind
  rintro descriptor _ rfl
  apply (sound_counted16 (sound_attribute depth)).map
  rintro attributes _ ⟨small, content, turn, rfl⟩
  exact ⟨⟨small, turn.forall_mem fun _ _ read => read.1⟩, content,
    turn.imp fun _ _ _ _ read => read.2, rfl⟩

theorem reads_member {item : Member} {taken : List UInt8} (valid : item.WellFormed pool)
    (spelled : item.Spelled taken) {depth : Nat} (deep : taken.length ≤ depth) :
    Reads (member pool depth) item taken := by
  obtain ⟨content, inside, rfl⟩ := spelled
  simp only [List.length_append] at deep
  have each := reads_attributes valid.2 inside (show content.length ≤ depth by omega)
  exact (reads_word16 _).bind ((reads_word16 _).bind ((reads_word16 _).bind
    ((reads_counted16 valid.1 each).map _)))

theorem reads_members {items : List Member} {taken : List UInt8}
    (valid : ∀ item ∈ items, item.WellFormed pool) (turn : InTurn Member.Spelled items taken)
    {depth : Nat} (deep : taken.length ≤ depth) :
    InTurn (Reads (member pool depth)) items taken := by
  apply turn.imp
  intro item member part short spelled
  exact reads_member (valid item member) spelled (by omega)

theorem outlasts_member {depth deeper : Nat} (below : depth ≤ deeper) :
    Outlasts (member pool deeper) (member pool depth) :=
  outlasts_word16.bind fun _ => outlasts_word16.bind fun _ => outlasts_word16.bind fun _ =>
    (outlasts_counted16 (outlasts_attribute below)).map _

end Attributes

section Files

/-- The reader of class files with an explicit bound on the nesting of attributes. -/
def classFileWithin (depth : Nat) : Reader ClassFile := do
  let found ← word32
  if found ≠ ClassFile.magic then fail (.magic found)
  else
    let minor ← word16
    let major ← word16
    let pool ← pool
    let access ← word16
    let thisClass ← word16
    let superClass ← word16
    let interfaces ← counted16 word16
    let fields ← counted16 (member pool depth)
    let methods ← counted16 (member pool depth)
    let attributes ← counted16 (attributeWithin pool depth)
    return ⟨minor, major, pool, access, thisClass, superClass, interfaces, fields, methods,
      attributes⟩

theorem read_eq (bytes : List UInt8) :
    ClassFile.read bytes = classFileWithin bytes.length bytes := rfl

theorem sound_classFile (depth : Nat) : Sound (classFileWithin depth) fun file taken =>
    file.WellFormed ∧ file.Spelled taken := by
  apply sound_word32.bind
  rintro found _ rfl
  split
  · exact sound_fail
  rename_i same
  rw [not_not] at same
  subst same
  apply sound_word16.bind
  rintro minor _ rfl
  apply sound_word16.bind
  rintro major _ rfl
  -- from here on attributes are told apart by the pool that was read
  apply sound_pool.bind
  rintro pool poolTaken ⟨validPool, poolSpelled⟩
  apply sound_word16.bind
  rintro access _ rfl
  apply sound_word16.bind
  rintro thisClass _ rfl
  apply sound_word16.bind
  rintro superClass _ rfl
  apply (sound_counted16_eq sound_word16).bind
  rintro interfaces _ ⟨interfacesSmall, rfl⟩
  apply (sound_counted16 (sound_member depth)).bind
  rintro fields _ ⟨fieldsSmall, fieldsTaken, fieldsRead, rfl⟩
  apply (sound_counted16 (sound_member depth)).bind
  rintro methods _ ⟨methodsSmall, methodsTaken, methodsRead, rfl⟩
  apply (sound_counted16 (sound_attribute depth)).map
  rintro attributes _ ⟨attributesSmall, attributesTaken, attributesRead, rfl⟩
  refine ⟨⟨validPool, interfacesSmall, ⟨fieldsSmall, ?_⟩, ⟨methodsSmall, ?_⟩,
    attributesSmall, ?_⟩, poolTaken, _, poolSpelled, ⟨fieldsTaken, methodsTaken, attributesTaken,
      ?_, ?_, ?_, rfl⟩, rfl⟩
  · exact fieldsRead.forall_mem fun _ _ read => read.1
  · exact methodsRead.forall_mem fun _ _ read => read.1
  · exact attributesRead.forall_mem fun _ _ read => read.1
  · exact fieldsRead.imp fun _ _ _ _ read => read.2
  · exact methodsRead.imp fun _ _ _ _ read => read.2
  · exact attributesRead.imp fun _ _ _ _ read => read.2

theorem reads_classFile {file : ClassFile} {taken : List UInt8} (valid : file.WellFormed)
    (spelled : file.Spelled taken) {depth : Nat} (deep : taken.length ≤ depth) :
    Reads (classFileWithin depth) file taken := by
  obtain ⟨poolTaken, _, poolSpelled, ⟨fields, methods, attributes, fieldsSpelled, methodsSpelled,
    attributesSpelled, rfl⟩, rfl⟩ := spelled
  simp only [List.length_append] at deep
  have eachField : InTurn (Reads (member file.pool depth)) file.fields fields :=
    reads_members valid.fields.2 fieldsSpelled (by omega)
  have eachMethod : InTurn (Reads (member file.pool depth)) file.methods methods :=
    reads_members valid.methods.2 methodsSpelled (by omega)
  have eachAttribute : InTurn (Reads (attributeWithin file.pool depth)) file.attributes
      attributes := reads_attributes valid.attributes.2 attributesSpelled (by omega)
  apply (reads_word32 ClassFile.magic).bind
  rw [if_neg (not_not.mpr rfl)]
  apply (reads_word16 _).bind
  apply (reads_word16 _).bind
  apply (reads_pool valid.pool poolSpelled).bind
  apply (reads_word16 _).bind
  apply (reads_word16 _).bind
  apply (reads_word16 _).bind
  apply (reads_counted16_eq valid.interfaces reads_word16).bind
  apply (reads_counted16 valid.fields.1 eachField).bind
  apply (reads_counted16 valid.methods.1 eachMethod).bind
  exact (reads_counted16 valid.attributes.1 eachAttribute).map _

theorem outlasts_classFile {depth deeper : Nat} (below : depth ≤ deeper) :
    Outlasts (classFileWithin deeper) (classFileWithin depth) := by
  apply outlasts_word32.bind
  intro found
  split
  · exact outlasts_fail _
  apply outlasts_word16.bind
  intro minor
  apply outlasts_word16.bind
  intro major
  apply outlasts_pool.bind
  intro pool
  apply outlasts_word16.bind
  intro access
  apply outlasts_word16.bind
  intro thisClass
  apply outlasts_word16.bind
  intro superClass
  apply (outlasts_counted16 outlasts_word16).bind
  intro interfaces
  apply (outlasts_counted16 (outlasts_member below)).bind
  intro fields
  apply (outlasts_counted16 (outlasts_member below)).bind
  intro methods
  exact (outlasts_counted16 (outlasts_attribute below)).map _

end Files

end Reader

namespace ClassFile

open Reader

theorem spelled_of_read {bytes unread : List UInt8} {file : ClassFile}
    (read : ClassFile.read bytes = .ok (file, unread)) :
    ∃ taken, bytes = taken ++ unread ∧ file.WellFormed ∧ file.Spelled taken :=
  sound_classFile bytes.length bytes file unread read

theorem read_of_spelled {file : ClassFile} {taken : List UInt8} (valid : file.WellFormed)
    (spelled : file.Spelled taken) (rest : List UInt8) :
    ClassFile.read (taken ++ rest) = .ok (file, rest) := by
  rw [read_eq]
  exact reads_classFile valid spelled (by rw [List.length_append]; omega) rest

/-- A spelling that is cut anywhere ends too early. -/
theorem read_cut {file : ClassFile} {taken part : List UInt8} (valid : file.WellFormed)
    (spelled : file.Spelled taken) (front : part <+: taken) (shorter : part ≠ taken) :
    ClassFile.read part = .error .endOfInput := by
  rw [read_eq]
  have whole := reads_classFile valid spelled (Nat.le_refl taken.length)
  exact (outlasts_classFile front.length_le).cut whole front shorter

/-- Reading undoes writing, whatever stands behind the class file. -/
theorem read_written (file : ClassFile) (valid : file.WellFormed) (rest : List UInt8) :
    ClassFile.read (file.bytes ++ rest) = .ok (file, rest) :=
  read_of_spelled valid file.spelled_bytes rest

/-- Constants of both widths, code inside of code, and attributes of all kinds. -/
def nestedFile : ClassFile where
  minor := 3
  major := 52
  pool := .ofList
    [.utf8 (Attribute.nameBytes "Code"), .long 1 2, .utf8 (Attribute.nameBytes "InnerClasses"),
      .utf8 (Attribute.nameBytes "Signature"), .utf8 (Attribute.nameBytes "LocalVariableTable"),
      .double 0x40000000 0, .utf8 (Attribute.nameBytes "LocalVariableTypeTable"),
      .utf8 (Attribute.nameBytes "Name"), .className 10, .memberRef .method 11 15,
      .methodHandle 6 12, .integer 7, .nameAndType 10 10]
  access := 0x21
  thisClass := 11
  superClass := 0
  interfaces := [11, 11]
  fields := [⟨1, 10, 10, [.signature 5 10]⟩]
  methods := [⟨9, 10, 10,
    [.code 1 2 3 [0x2A, 0xB1] [⟨0, 1, 1, 0⟩]
      [.localVariables 6 [⟨0, 2, 10, 10, 0⟩, ⟨0, 2, 10, 10, 1⟩],
        .code 1 0 0 [] [] [.localVariableTypes 9 [⟨0, 2, 10, 10, 0⟩]], .other 10 [0, 10]]]⟩]
  attributes := [.innerClasses 4 [⟨11, 0, 10, 1⟩], .other 10 [0, 10]]

theorem read_written_nested : nestedFile.WellFormed ∧
    ClassFile.read (nestedFile.bytes ++ [0xCA, 0xFE]) = .ok (nestedFile, [0xCA, 0xFE]) :=
  ⟨by decide +kernel, read_written nestedFile (by decide +kernel) _⟩

end ClassFile

end Deobfuscation
