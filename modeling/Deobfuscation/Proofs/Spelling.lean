import Deobfuscation.Proofs.PoolReading

/-!
How class files are spelled. A class file is well-formed if its lists fit their counts and its
attributes have the names of their kinds. Its spellings are its own bytes, with any length
items for the attributes that are taken apart and any count that stands for an empty pool.
All spellings are as long as the computed length says.
-/

namespace Deobfuscation

namespace Attribute

/-- The names of a kind of attribute. Attributes that are kept as bytes have all other names. -/
def Kind.Named : Kind → List UInt8 → Prop
  | .code, name => name = nameBytes "Code"
  | .innerClasses, name => name = nameBytes "InnerClasses"
  | .signature, name => name = nameBytes "Signature"
  | .localVariables, name => name = nameBytes "LocalVariableTable"
  | .localVariableTypes, name => name = nameBytes "LocalVariableTypeTable"
  | .other, name => name ∉
      ["Code", "InnerClasses", "Signature", "LocalVariableTable",
        "LocalVariableTypeTable"].map nameBytes

instance (kind : Kind) (name : List UInt8) : Decidable (kind.Named name) :=
  match kind with
  | .code => inferInstanceAs (Decidable (name = _))
  | .innerClasses => inferInstanceAs (Decidable (name = _))
  | .signature => inferInstanceAs (Decidable (name = _))
  | .localVariables => inferInstanceAs (Decidable (name = _))
  | .localVariableTypes => inferInstanceAs (Decidable (name = _))
  | .other => inferInstanceAs (Decidable (name ∉ _))

def nameAt? (pool : Pool) (index : UInt16) : Option (List UInt8) :=
  match pool.get? index with
  | some (.utf8 bytes) => some bytes
  | _ => none

/-- The index of its name denotes a name of its kind. -/
def WellNamed (pool : Pool) (item : Attribute) : Prop :=
  ∃ name ∈ nameAt? pool item.name, item.kind.Named name

instance (pool : Pool) (item : Attribute) : Decidable (item.WellNamed pool) :=
  inferInstanceAs (Decidable (∃ name ∈ nameAt? pool item.name, item.kind.Named name))

/-- The lists of an attribute fit their counts. -/
def Sized : Attribute → Prop
  | .code _ _ _ body handlers attributes =>
      body.length < 2 ^ 32 ∧ handlers.length ≤ 65535 ∧ attributes.length ≤ 65535
  | .innerClasses _ classes => classes.length ≤ 65535
  | .signature .. => True
  | .localVariables _ table => table.length ≤ 65535
  | .localVariableTypes _ table => table.length ≤ 65535
  | .other _ info => info.length < 2 ^ 32

instance (item : Attribute) : Decidable item.Sized :=
  match item with
  | .code _ _ _ body handlers attributes => inferInstanceAs (Decidable
      (body.length < 2 ^ 32 ∧ handlers.length ≤ 65535 ∧ attributes.length ≤ 65535))
  | .innerClasses _ classes => inferInstanceAs (Decidable (classes.length ≤ 65535))
  | .signature .. => isTrue trivial
  | .localVariables _ table => inferInstanceAs (Decidable (table.length ≤ 65535))
  | .localVariableTypes _ table => inferInstanceAs (Decidable (table.length ≤ 65535))
  | .other _ info => inferInstanceAs (Decidable (info.length < 2 ^ 32))

mutual

def WellFormed (pool : Pool) : Attribute → Prop
  | .code name maxStack maxLocals body handlers attributes =>
      WellNamed pool (.code name maxStack maxLocals body handlers attributes) ∧
        Sized (.code name maxStack maxLocals body handlers attributes) ∧
        AllWellFormed pool attributes
  | item => item.WellNamed pool ∧ item.Sized

def AllWellFormed (pool : Pool) : List Attribute → Prop
  | [] => True
  | first :: rest => WellFormed pool first ∧ AllWellFormed pool rest

end

mutual

def decideWellFormed (pool : Pool) : (item : Attribute) → Decidable (item.WellFormed pool)
  | .code name maxStack maxLocals body handlers attributes =>
      have := decideAllWellFormed pool attributes
      inferInstanceAs (Decidable
        (WellNamed pool (.code name maxStack maxLocals body handlers attributes) ∧
          Sized (.code name maxStack maxLocals body handlers attributes) ∧
          AllWellFormed pool attributes))
  | .innerClasses name classes => inferInstanceAs (Decidable
      (WellNamed pool (.innerClasses name classes) ∧ Sized (.innerClasses name classes)))
  | .signature name index => inferInstanceAs (Decidable
      (WellNamed pool (.signature name index) ∧ Sized (.signature name index)))
  | .localVariables name table => inferInstanceAs (Decidable
      (WellNamed pool (.localVariables name table) ∧ Sized (.localVariables name table)))
  | .localVariableTypes name table => inferInstanceAs (Decidable
      (WellNamed pool (.localVariableTypes name table) ∧ Sized (.localVariableTypes name table)))
  | .other name info => inferInstanceAs (Decidable
      (WellNamed pool (.other name info) ∧ Sized (.other name info)))

def decideAllWellFormed (pool : Pool) :
    (items : List Attribute) → Decidable (AllWellFormed pool items)
  | [] => isTrue trivial
  | first :: rest =>
      have := decideWellFormed pool first
      have := decideAllWellFormed pool rest
      inferInstanceAs (Decidable (WellFormed pool first ∧ AllWellFormed pool rest))

end

instance (pool : Pool) (item : Attribute) : Decidable (item.WellFormed pool) :=
  decideWellFormed pool item

mutual

/-- The bytes are those of the attribute, but for its length item and those of nested ones. -/
def Spelled : Attribute → List UInt8 → Prop
  | .code name maxStack maxLocals body handlers attributes, taken =>
      ∃ (length : UInt32) (content : List UInt8), SpelledAll attributes content ∧
        taken = bytes16 name ++ (bytes32 length ++ (bytes16 maxStack ++ (bytes16 maxLocals ++
          (sized32 body ++ (counted16 Handler.bytes handlers ++
            (bytes16 (UInt16.ofNat attributes.length) ++ content))))))
  | .innerClasses name classes, taken => ∃ length,
      taken = bytes16 name ++ (bytes32 length ++ counted16 InnerClass.bytes classes)
  | .signature name index, taken => ∃ length,
      taken = bytes16 name ++ (bytes32 length ++ bytes16 index)
  | .localVariables name table, taken => ∃ length,
      taken = bytes16 name ++ (bytes32 length ++ counted16 Local.bytes table)
  | .localVariableTypes name table, taken => ∃ length,
      taken = bytes16 name ++ (bytes32 length ++ counted16 Local.bytes table)
  | .other name info, taken => taken = bytes16 name ++ sized32 info

def SpelledAll : List Attribute → List UInt8 → Prop
  | [], taken => taken = []
  | first :: rest, taken =>
      ∃ head tail, taken = head ++ tail ∧ Spelled first head ∧ SpelledAll rest tail

end

/-- What holds of code if it holds of the attributes in it, and of all other attributes, holds of
every attribute. -/
theorem nestedInduction {Holds : Attribute → Prop}
    (code : ∀ name maxStack maxLocals body handlers attributes, (∀ item ∈ attributes, Holds item) →
      Holds (.code name maxStack maxLocals body handlers attributes))
    (innerClasses : ∀ name classes, Holds (.innerClasses name classes))
    (signature : ∀ name index, Holds (.signature name index))
    (localVariables : ∀ name table, Holds (.localVariables name table))
    (localVariableTypes : ∀ name table, Holds (.localVariableTypes name table))
    (other : ∀ name info, Holds (.other name info)) (item : Attribute) : Holds item :=
  @Attribute.rec Holds (fun items => ∀ item ∈ items, Holds item) code innerClasses signature
    localVariables localVariableTypes other nofun
    (fun _ _ first rest => List.forall_mem_cons.mpr ⟨first, rest⟩) item

theorem allWellFormed_iff {pool : Pool} {items : List Attribute} :
    AllWellFormed pool items ↔ ∀ item ∈ items, item.WellFormed pool := by
  induction items with
  | nil => simp [AllWellFormed]
  | cons first rest ih => simp [AllWellFormed, ih]

theorem spelledAll_iff {items : List Attribute} {taken : List UInt8} :
    SpelledAll items taken ↔ InTurn Spelled items taken := by
  induction items generalizing taken with
  | nil => simp [SpelledAll, InTurn]
  | cons first rest ih => simp [SpelledAll, InTurn, ih]

theorem bytesOfAll_eq (items : List Attribute) : bytesOfAll items = items.flatMap bytes := by
  induction items with
  | nil => rfl
  | cons first rest ih => rw [bytesOfAll, ih, List.flatMap_cons]

theorem Kind.ofName_eq_iff {name : List UInt8} {kind : Kind} :
    ofName name = kind ↔ kind.Named name := by
  constructor
  · rintro rfl
    unfold ofName
    split
    · assumption
    split
    · assumption
    split
    · assumption
    split
    · assumption
    split
    · assumption
    · simp_all [Kind.Named]
  · intro named
    cases kind with
    | other =>
        simp only [Kind.Named, List.map_cons, List.map_nil, List.mem_cons, List.not_mem_nil,
          or_false, not_or] at named
        simp [ofName, named]
    | _ =>
        obtain rfl := named
        decide

end Attribute

/-- The lists of a field or method fit their counts, and its attributes are well-formed. -/
def Member.WellFormed (pool : Pool) (member : Member) : Prop :=
  member.attributes.length ≤ 65535 ∧ ∀ item ∈ member.attributes, item.WellFormed pool

instance (pool : Pool) (member : Member) : Decidable (member.WellFormed pool) :=
  inferInstanceAs (Decidable (_ ∧ _))

def Member.Spelled (member : Member) (taken : List UInt8) : Prop :=
  ∃ content, InTurn Attribute.Spelled member.attributes content ∧
    taken = bytes16 member.access ++ (bytes16 member.name ++ (bytes16 member.descriptor ++
      (bytes16 (UInt16.ofNat member.attributes.length) ++ content)))

structure ClassFile.WellFormed (file : ClassFile) : Prop where
  pool : file.pool.WellFormed
  interfaces : file.interfaces.length ≤ 65535
  fields : file.fields.length ≤ 65535 ∧ ∀ field ∈ file.fields, field.WellFormed file.pool
  methods : file.methods.length ≤ 65535 ∧ ∀ method ∈ file.methods, method.WellFormed file.pool
  attributes : file.attributes.length ≤ 65535 ∧
    ∀ item ∈ file.attributes, item.WellFormed file.pool

instance (file : ClassFile) : Decidable file.WellFormed :=
  decidable_of_iff
    (file.pool.WellFormed ∧ file.interfaces.length ≤ 65535 ∧
      (file.fields.length ≤ 65535 ∧ ∀ field ∈ file.fields, field.WellFormed file.pool) ∧
      (file.methods.length ≤ 65535 ∧ ∀ method ∈ file.methods, method.WellFormed file.pool) ∧
      file.attributes.length ≤ 65535 ∧ ∀ item ∈ file.attributes, item.WellFormed file.pool)
    ⟨fun ⟨pool, interfaces, fields, methods, attributes⟩ =>
        ⟨pool, interfaces, fields, methods, attributes⟩,
      fun ⟨pool, interfaces, fields, methods, attributes⟩ =>
        ⟨pool, interfaces, fields, methods, attributes⟩⟩

/-- What stands behind the pool. -/
def ClassFile.TailSpelled (file : ClassFile) (taken : List UInt8) : Prop :=
  ∃ fields methods attributes, InTurn Member.Spelled file.fields fields ∧
    InTurn Member.Spelled file.methods methods ∧
    InTurn Attribute.Spelled file.attributes attributes ∧
    taken = bytes16 file.access ++ (bytes16 file.thisClass ++ (bytes16 file.superClass ++
      (counted16 bytes16 file.interfaces ++
        ((bytes16 (UInt16.ofNat file.fields.length) ++ fields) ++
          ((bytes16 (UInt16.ofNat file.methods.length) ++ methods) ++
            (bytes16 (UInt16.ofNat file.attributes.length) ++ attributes))))))

def ClassFile.Spelled (file : ClassFile) (taken : List UInt8) : Prop :=
  ∃ pool tail, file.pool.Spelled pool ∧ file.TailSpelled tail ∧
    taken = bytes32 magic ++ (bytes16 file.minor ++ (bytes16 file.major ++ (pool ++ tail)))

section Written

theorem inTurn_flatMap {Item : Type} {Spelled : Item → List UInt8 → Prop}
    {bytes : Item → List UInt8} {items : List Item}
    (each : ∀ item ∈ items, Spelled item (bytes item)) :
    InTurn Spelled items (items.flatMap bytes) := by
  apply (inTurn_eq_iff.mpr rfl).imp
  rintro item member _ - rfl
  exact each item member

namespace Attribute

theorem spelled_bytes (item : Attribute) : item.Spelled item.bytes := by
  induction item using nestedInduction with
  | code name maxStack maxLocals body handlers attributes nested =>
      refine ⟨UInt32.ofNat (length (.code name maxStack maxLocals body handlers attributes) - 6),
        attributes.flatMap bytes, spelledAll_iff.mpr (inTurn_flatMap nested), ?_⟩
      simp only [bytes, lengthItem, bytesOfAll_eq, List.append_assoc]
  | other name info => exact rfl
  | innerClasses name classes =>
      refine ⟨UInt32.ofNat (length (.innerClasses name classes) - 6), ?_⟩
      rw [bytes, lengthItem, List.append_assoc]
  | signature name index =>
      refine ⟨UInt32.ofNat (length (.signature name index) - 6), ?_⟩
      rw [bytes, lengthItem, List.append_assoc]
  | localVariables name table =>
      refine ⟨UInt32.ofNat (length (.localVariables name table) - 6), ?_⟩
      rw [bytes, lengthItem, List.append_assoc]
  | localVariableTypes name table =>
      refine ⟨UInt32.ofNat (length (.localVariableTypes name table) - 6), ?_⟩
      rw [bytes, lengthItem, List.append_assoc]

end Attribute

theorem Member.spelled_bytes (member : Member) : member.Spelled member.bytes := by
  refine ⟨_, inTurn_flatMap fun item _ => item.spelled_bytes, ?_⟩
  simp only [Member.bytes, Attribute.counted, Attribute.bytesOfAll_eq, List.append_assoc]

/-- The bytes that are written for a class file are one of its spellings. -/
theorem ClassFile.spelled_bytes (file : ClassFile) : file.Spelled file.bytes := by
  refine ⟨_, _, file.pool.spelled_bytes,
    ⟨_, _, _, inTurn_flatMap fun field _ => field.spelled_bytes,
      inTurn_flatMap fun method _ => method.spelled_bytes,
      inTurn_flatMap fun item _ => item.spelled_bytes, rfl⟩, ?_⟩
  simp only [ClassFile.bytes, counted16, Attribute.counted, Attribute.bytesOfAll_eq,
    List.append_assoc]

end Written

section Lengths

variable {Item : Type} {size : Item → Nat}

theorem InTurn.length {Spelled : Item → List UInt8 → Prop} {items : List Item}
    {taken : List UInt8} (turn : InTurn Spelled items taken)
    (each : ∀ item ∈ items, ∀ part, Spelled item part → part.length = size item) :
    taken.length = totalOf size items := by
  induction items generalizing taken with
  | nil =>
      obtain rfl := turn
      rfl
  | cons first rest ih =>
      obtain ⟨head, tail, rfl, spelled, others⟩ := turn
      rw [List.length_append, each first List.mem_cons_self head spelled,
        ih others fun item member => each item (List.mem_cons_of_mem first member)]
      rfl

theorem totalOf_const (width : Nat) (items : List Item) :
    totalOf (fun _ => width) items = width * items.length := by
  induction items with
  | nil => rfl
  | cons first rest ih =>
      rw [totalOf, ih, List.length_cons, Nat.mul_add]
      omega

theorem length_flatMap {bytes : Item → List UInt8}
    (each : ∀ item, (bytes item).length = size item) (items : List Item) :
    (items.flatMap bytes).length = totalOf size items := by
  apply (inTurn_eq_iff.mpr rfl).length
  rintro item - _ rfl
  exact each item

theorem length_bytes16 (word : UInt16) : (bytes16 word).length = 2 := rfl

theorem length_bytes32 (word : UInt32) : (bytes32 word).length = 4 := rfl

theorem length_counted16 {bytes : Item → List UInt8} {width : Nat}
    (each : ∀ item, (bytes item).length = width) (items : List Item) :
    (counted16 bytes items).length = 2 + width * items.length := by
  rw [counted16, List.length_append, length_bytes16, length_flatMap each, totalOf_const]

theorem length_handlers (handlers : List Handler) :
    (counted16 Handler.bytes handlers).length = 2 + 8 * handlers.length :=
  length_counted16 (fun entry => (rfl : entry.bytes.length = 8)) handlers

theorem length_innerClasses (classes : List InnerClass) :
    (counted16 InnerClass.bytes classes).length = 2 + 8 * classes.length :=
  length_counted16 (fun entry => (rfl : entry.bytes.length = 8)) classes

theorem length_locals (table : List Local) :
    (counted16 Local.bytes table).length = 2 + 10 * table.length :=
  length_counted16 (fun entry => (rfl : entry.bytes.length = 10)) table

theorem length_indices (indices : List UInt16) :
    (counted16 bytes16 indices).length = 2 + 2 * indices.length :=
  length_counted16 length_bytes16 indices

theorem length_sized32 (bytes : List UInt8) : (sized32 bytes).length = 4 + bytes.length := by
  rw [sized32, List.length_append, length_bytes32]

theorem Constant.length_bytes (constant : Constant) :
    constant.bytes.length = 1 + constant.length := by
  rw [Constant.bytes, List.length_cons, Nat.add_comm]
  cases constant <;> simp [Constant.content, Constant.length, length_bytes16, length_bytes32]

theorem Pool.Spelled.length {pool : Pool} {taken : List UInt8} (spelled : pool.Spelled taken) :
    taken.length = pool.length := by
  obtain ⟨count, -, rfl⟩ := spelled
  rw [List.length_append, length_bytes16, length_flatMap Constant.length_bytes]
  rfl

namespace Attribute

theorem six_le_length (item : Attribute) : 6 ≤ item.length := by
  cases item <;> exact Nat.le_add_right 6 _

theorem lengths_eq (items : List Attribute) : lengths items = totalOf length items := by
  induction items with
  | nil => rfl
  | cons first rest ih => rw [lengths, ih, totalOf]

theorem Spelled.length {item : Attribute} {taken : List UInt8} (spelled : item.Spelled taken) :
    taken.length = item.length := by
  induction item using nestedInduction generalizing taken with
  | code name maxStack maxLocals body handlers attributes nested =>
      obtain ⟨length, content, inside, rfl⟩ := spelled
      have contentLength := (spelledAll_iff.mp inside).length fun item member part =>
        nested item member
      simp only [List.length_append, length_bytes16, length_bytes32, length_sized32,
        length_handlers, contentLength,
        Attribute.length, lengths_eq]
      omega
  | innerClasses name classes =>
      obtain ⟨length, rfl⟩ := spelled
      simp only [List.length_append, length_bytes16, length_bytes32, Attribute.length,
        length_innerClasses]
      omega
  | signature name index =>
      obtain ⟨length, rfl⟩ := spelled
      rfl
  | localVariables name table =>
      obtain ⟨length, rfl⟩ := spelled
      simp only [List.length_append, length_bytes16, length_bytes32, Attribute.length,
        length_locals]
      omega
  | localVariableTypes name table =>
      obtain ⟨length, rfl⟩ := spelled
      simp only [List.length_append, length_bytes16, length_bytes32, Attribute.length,
        length_locals]
      omega
  | other name info =>
      obtain rfl := spelled
      simp only [List.length_append, length_bytes16, length_sized32, Attribute.length]
      omega

end Attribute

theorem Member.Spelled.length {member : Member} {taken : List UInt8}
    (spelled : member.Spelled taken) : taken.length = member.length := by
  obtain ⟨content, inside, rfl⟩ := spelled
  have contentLength := inside.length fun item _ part => Attribute.Spelled.length
  simp only [List.length_append, length_bytes16, contentLength, Member.length,
    Attribute.lengths_eq]
  omega

end Lengths

end Deobfuscation
