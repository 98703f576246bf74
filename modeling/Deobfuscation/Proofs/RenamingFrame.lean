import Deobfuscation.Proofs.ClassRenaming

/-!
What renaming leaves alone. The outline of a part is the part without the indices that
renaming may change. Renaming keeps all outlines, but for tables of generic types in the code
of methods, and it adds only texts and names with types to a pool.
-/

namespace Deobfuscation

open Edit Pool

def Constant.outline : Constant → Constant
  | .className _ => .className 0
  | .nameAndType name _ => .nameAndType name 0
  | .methodType _ => .methodType 0
  | .memberRef kind owner _ => .memberRef kind owner 0
  | constant => constant

def InnerClass.outline (entry : InnerClass) : InnerClass := { entry with name := 0 }

def Local.outline (entry : Local) : Local := { entry with name := 0, type := 0 }

namespace Attribute

def localsOutline : Attribute → Attribute
  | .localVariables name table => .localVariables name (table.map Local.outline)
  | item => item

def outline : Attribute → Attribute
  | .code name maxStack maxLocals body handlers attributes =>
      .code name maxStack maxLocals body handlers (attributes.map localsOutline)
  | .innerClasses name classes => .innerClasses name (classes.map InnerClass.outline)
  | .signature name _ => .signature name 0
  | item => item

/-- The attribute without tables of generic types, if it is code. -/
def withoutTypes : Attribute → Attribute
  | .code name maxStack maxLocals body handlers attributes =>
      .code name maxStack maxLocals body handlers
        (attributes.filter fun item => item.kind ≠ .localVariableTypes)
  | item => item

end Attribute

namespace Member

def outline (member : Member) : Member :=
  { member with
    name := 0
    descriptor := 0
    attributes := member.attributes.map Attribute.outline }

def withoutTypes (member : Member) : Member :=
  { member with attributes := member.attributes.map Attribute.withoutTypes }

end Member

namespace Pool

/-- The old slots come first and keep their outlines. All slots behind them hold texts or names
with types, and there is an index for each of them. -/
def GrowsInto (old new : Pool) : Prop :=
  (old.Fits → new.Fits) ∧ ∃ kept added, new.slots.toList = kept ++ added ∧
    kept.map (Option.map Constant.outline) = old.slots.toList.map (Option.map Constant.outline) ∧
    ∀ slot ∈ added, ∃ constant, slot = some constant ∧ constant.isFiled = true

section Growth

variable {old new last : Pool}

theorem growsInto_refl (pool : Pool) : pool.GrowsInto pool :=
  ⟨id, pool.slots.toList, [], by simp, rfl, nofun⟩

theorem isFiled_outline (constant : Constant) : constant.outline.isFiled = constant.isFiled := by
  cases constant <;> rfl

theorem isFiled_of_outline {first second : Constant} (same : first.outline = second.outline) :
    first.isFiled = second.isFiled := by
  rw [← isFiled_outline first, same, isFiled_outline]

theorem growsInto_trans (first : old.GrowsInto new) (second : new.GrowsInto last) :
    old.GrowsInto last := by
  obtain ⟨fits, kept, added, slots, same, filed⟩ := first
  obtain ⟨lastFits, stayed, more, lastSlots, lastSame, moreFiled⟩ := second
  rw [slots, List.map_append, List.map_eq_append_iff] at lastSame
  obtain ⟨front, back, rfl, frontSame, backSame⟩ := lastSame
  refine ⟨lastFits ∘ fits, front, back ++ more, by rw [lastSlots, List.append_assoc],
    frontSame.trans same, ?_⟩
  intro slot member
  rcases List.mem_append.mp member with inside | behind
  -- it has the outline of a slot that was added first
  · have outlined := List.mem_map_of_mem (f := Option.map Constant.outline) inside
    rw [backSame] at outlined
    obtain ⟨earlier, earlierInside, sameOutline⟩ := List.mem_map.mp outlined
    obtain ⟨constant, rfl, constantFiled⟩ := filed earlier earlierInside
    obtain ⟨result, rfl, resultOutline⟩ := Option.map_eq_some_iff.mp sameOutline.symm
    exact ⟨result, rfl, by rw [isFiled_of_outline resultOutline, constantFiled]⟩
  · exact moreFiled slot behind

theorem GrowsInto.get? (grown : old.GrowsInto new) {index : UInt16} {constant : Constant}
    (stands : old.get? index = some constant) :
    ∃ result, new.get? index = some result ∧ result.outline = constant.outline := by
  obtain ⟨-, kept, added, slots, same, -⟩ := grown
  obtain ⟨positive, slot⟩ := get?_eq_some_iff.mp stands
  have outlined := congrArg (fun list => list[index.toNat - 1]?) same
  simp only [List.getElem?_map, Array.getElem?_toList, slot, Option.map_some,
    Option.map_eq_some_iff] at outlined
  obtain ⟨found, foundSlot, foundOutline⟩ := outlined
  obtain ⟨result, rfl, resultOutline⟩ := foundOutline
  refine ⟨result, get?_eq_some_iff.mpr ⟨positive, ?_⟩, resultOutline⟩
  rw [← Array.getElem?_toList, slots, List.getElem?_append_left]
  · exact foundSlot
  · exact (List.getElem?_eq_some_iff.mp foundSlot).1

theorem isWide_of_isFiled {constant : Constant} (filed : constant.isFiled = true) :
    constant.isWide = false := by
  cases constant with
  | long high low => cases filed
  | double high low => cases filed
  | _ => rfl

theorem growsInto_push {constant : Constant} {index : UInt16} (filed : constant.isFiled = true)
    (pushed : old.push constant = .ok (index, new)) : old.GrowsInto new := by
  have narrow := isWide_of_isFiled filed
  refine ⟨fun fits => (push_grows fits narrow pushed).1, ?_⟩
  simp only [push] at pushed
  split at pushed
  · cases pushed
  · cases pushed
    refine ⟨old.slots.toList, [some constant], by simp [slotsOf, narrow], rfl, ?_⟩
    intro slot member
    exact ⟨constant, List.mem_singleton.mp member, filed⟩

theorem growsInto_replace {index : UInt16} {constant result : Constant}
    (stands : old.get? index = some constant) (same : result.outline = constant.outline) :
    old.GrowsInto (old.replace index result) := by
  obtain ⟨-, slot⟩ := get?_eq_some_iff.mp stands
  refine ⟨fun fits => fits_replace fits index result,
    (old.replace index result).slots.toList, [], by simp, ?_, nofun⟩
  apply List.ext_getElem?
  intro position
  simp only [replace, stands, Option.isSome_some, if_true, List.getElem?_map,
    Array.getElem?_toList, Array.getElem?_setIfInBounds]
  split
  · rename_i here
    subst here
    have inside := (Array.getElem?_eq_some_iff.mp slot).1
    rw [if_pos inside, slot]
    simp [same]
  · rfl

theorem GrowsInto.replace (grown : old.GrowsInto new) {index : UInt16}
    {constant result : Constant} (stands : old.get? index = some constant)
    (same : result.outline = constant.outline) : old.GrowsInto (new.replace index result) := by
  obtain ⟨now, nowStands, nowOutline⟩ := grown.get? stands
  exact growsInto_trans grown (growsInto_replace nowStands (same.trans nowOutline.symm))

end Growth

end Pool

/-- The pool only grows from one state to the other. -/
def Editing.Grows (before after : Editing) : Prop := before.pool.GrowsInto after.pool

namespace Edit

theorem lasting_grows : Lasting Editing.Grows where
  refl editing := growsInto_refl editing.pool
  trans := growsInto_trans
  noted notice := by
    intro before item after run
    rw [runs_note.mp run]
    exact growsInto_refl _
  interned text := by
    intro before index after run
    rcases runs_internText run with ⟨-, rfl⟩ | ⟨-, pool, pushed, rfl⟩
    · exact growsInto_refl _
    · exact growsInto_push rfl pushed

theorem internPair_grows (name descriptor : String) :
    Within Editing.Grows (internPair name descriptor) := by
  intro before index after run
  rcases runs_internPair run with ⟨-, rfl⟩ |
    ⟨-, nameIndex, named, descriptorIndex, described, pool, nameRun, descriptorRun, pushed, rfl⟩
  · exact growsInto_refl _
  · have withName := lasting_grows.interned name _ _ _ nameRun
    have withDescriptor := lasting_grows.interned descriptor _ _ _ descriptorRun
    exact growsInto_trans withName (growsInto_trans withDescriptor (growsInto_push rfl pushed))

end Edit

namespace Renamer

section Edits

variable {renamer : Renamer} {known : Bindings UInt16 (String × String)} {inside : String}

theorem classConstant_grows (index : UInt16) :
    Within Editing.Grows (renamer.classConstant index) := by
  intro before item after run
  rcases classConstant_cases run with ⟨-, rfl⟩ | ⟨_, _, _, grown, stands, -, retargeted, rfl⟩
  · exact growsInto_refl _
  · exact (lasting_grows.retarget _ _ _ _ _ _ retargeted).replace stands rfl

theorem nameAndTypeConstant_grows (index : UInt16) :
    Within Editing.Grows (renamer.nameAndTypeConstant known index) := by
  intro before item after run
  rcases nameAndTypeConstant_cases run with ⟨-, rfl⟩ |
    ⟨_, _, _, _, grown, stands, -, retargeted, ⟨-, rfl⟩ | ⟨-, rfl⟩⟩
  · exact growsInto_refl _
  · exact lasting_grows.retarget _ _ _ _ _ _ retargeted
  · exact (lasting_grows.retarget _ _ _ _ _ _ retargeted).replace stands rfl

theorem reference_grows (kind : MemberKind) (owner pair : UInt16) :
    Within Editing.Grows (renamer.reference known inside kind owner pair) := by
  intro before target after run
  obtain ⟨_, _, _, _, _, -, -, -, -, ⟨-, -, rfl⟩ | ⟨-, notices, interned⟩⟩ := reference_cases run
  · exact growsInto_refl _
  · have grown := internPair_grows _ _ _ _ _ interned
    exact grown

theorem referenceConstant_grows (index : UInt16) :
    Within Editing.Grows (renamer.referenceConstant known inside index) := by
  intro before item after run
  rcases referenceConstant_cases run with ⟨-, -, rfl⟩ |
    ⟨_, _, _, _, grown, stands, referenced, rfl⟩ | ⟨_, _, grown, stands, described, rfl⟩
  · exact growsInto_refl _
  · exact (reference_grows _ _ _ _ _ _ referenced).replace stands rfl
  · exact (descriptorAt_within lasting_grows _ _ _ _ described).replace stands rfl

theorem constants_grows : Within Editing.Grows (renamer.constants inside) := by
  apply lasting_grows.bind lasting_grows.get
  intro editing
  apply lasting_grows.bind (lasting_grows.forIndices classConstant_grows _)
  intro _
  apply lasting_grows.bind (lasting_grows.forIndices nameAndTypeConstant_grows _)
  intro _
  exact lasting_grows.forIndices referenceConstant_grows _

/-- Renaming a class file only makes its pool grow. -/
theorem renameClass_grows {file result : ClassFile}
    (run : (renamer.renameClass file).1 = .ok result) : file.pool.GrowsInto result.pool := by
  obtain ⟨_, _, last, -, partsRun, rfl⟩ := renameClass_cases run
  obtain ⟨middle, constantsRun, later⟩ := parts_cases partsRun
  exact growsInto_trans (constants_grows _ _ _ constantsRun) (later lasting_grows)

end Edits

end Renamer

/-- A class file and one that differs from it only in the indices of names and descriptors, in
tables of generic types in the code of methods, and in what its pool has at the end. -/
structure ClassFile.SameOutline (file result : ClassFile) : Prop where
  frame : result = { file with
    pool := result.pool
    attributes := result.attributes
    fields := result.fields
    methods := result.methods }
  attributes : result.attributes.map Attribute.outline = file.attributes.map Attribute.outline
  fields : result.fields.map Member.outline = file.fields.map Member.outline
  methods : result.methods.map Member.outline =
    file.methods.map fun method => method.withoutTypes.outline
  pool : file.pool.GrowsInto result.pool

namespace Renamer

section Outlines

variable {renamer : Renamer} {inside : String} {old new : Pool}

theorem map_eq_of_forall₂ {Item Other Seen : Type} {Related : Item → Other → Prop}
    {items : List Item} {results : List Other} (related : List.Forall₂ Related items results)
    {left : Item → Seen} {right : Other → Seen}
    (each : ∀ {item result}, Related item result → right result = left item) :
    results.map right = items.map left := by
  induction related with
  | nil => rfl
  | cons head _ ih => rw [List.map_cons, List.map_cons, each head, ih]

theorem SignatureRenamed.outline {item result : Attribute}
    (renamed : renamer.SignatureRenamed old new item result) :
    result.outline = item.outline := by
  cases item with
  | signature name index =>
      obtain ⟨target, rfl, -⟩ := renamed
      rfl
  | _ =>
      cases renamed
      rfl

theorem ClassAttributeRenamed.outline {item result : Attribute}
    (renamed : renamer.ClassAttributeRenamed old new item result) :
    result.outline = item.outline := by
  cases item with
  | innerClasses name classes =>
      obtain ⟨entries, rfl, each⟩ := renamed
      have same : entries.map InnerClass.outline = classes.map InnerClass.outline := by
        apply map_eq_of_forall₂ each
        intro entry result entryRenamed
        rw [entryRenamed.frame]
        rfl
      simp only [Attribute.outline, same]
  | _ => exact @SignatureRenamed.outline renamer old new _ _ renamed

theorem CodeAttributeRenamed.outline {ordinal : Nat} {item result : Attribute}
    (renamed : renamer.CodeAttributeRenamed old new ordinal item result) :
    result.localsOutline = item.localsOutline := by
  cases item with
  | localVariables name table =>
      obtain ⟨locals, rfl, each⟩ := renamed
      have same : locals.map Local.outline = table.zipIdx.map fun item => item.1.outline := by
        apply map_eq_of_forall₂ each
        intro item result localRenamed
        rw [localRenamed.frame]
        rfl
      have unplaced : (table.zipIdx.map fun item => item.1.outline) = table.map Local.outline := by
        conv_rhs => rw [← List.zipIdx_map_fst 0 table, List.map_map]
        rfl
      simp only [Attribute.localsOutline, same, unplaced]
  | _ =>
      cases renamed
      rfl

theorem MethodAttributeRenamed.outline {ordinal : Nat} {item result : Attribute}
    (renamed : renamer.MethodAttributeRenamed old new ordinal item result) :
    result.outline = item.withoutTypes.outline := by
  cases item with
  | code name maxStack maxLocals body handlers attributes =>
      obtain ⟨results, rfl, -, each⟩ := renamed
      have same := map_eq_of_forall₂ each CodeAttributeRenamed.outline
      simp only [Attribute.outline, Attribute.withoutTypes, same]
  | _ => exact @SignatureRenamed.outline renamer old new _ _ renamed

theorem FieldRenamed.outline {field result : Member}
    (renamed : renamer.FieldRenamed inside old new field result) :
    result.outline = field.outline := by
  have attributes := map_eq_of_forall₂ renamed.attributes SignatureRenamed.outline
  simp only [Member.outline, renamed.access, attributes]

theorem MethodRenamed.outline {item : Member × Nat} {result : Member}
    (renamed : renamer.MethodRenamed inside old new item result) :
    result.outline = item.1.withoutTypes.outline := by
  have attributes := map_eq_of_forall₂ renamed.attributes MethodAttributeRenamed.outline
  simp only [Member.outline, Member.withoutTypes, renamed.access, attributes, List.map_map]
  rfl

theorem DeclarationsRenamed.sameOutline {file result : ClassFile}
    (renamed : renamer.DeclarationsRenamed inside file result)
    (grown : file.pool.GrowsInto result.pool) : file.SameOutline result where
  frame := renamed.frame
  attributes := map_eq_of_forall₂ renamed.attributes ClassAttributeRenamed.outline
  fields := map_eq_of_forall₂ renamed.fields FieldRenamed.outline
  methods := by
    rw [map_eq_of_forall₂ renamed.methods MethodRenamed.outline]
    conv_rhs => rw [← List.zipIdx_map_fst 0 file.methods, List.map_map]
    rfl
  pool := grown

theorem sameOutline_of_run {file result : ClassFile} (fits : file.pool.Fits)
    (run : (renamer.renameClass file).1 = .ok result) : file.SameOutline result := by
  obtain ⟨inside, named⟩ := name_of_renameClass run
  obtain ⟨-, declarations⟩ := renameClass_renamed fits named run
  exact declarations.sameOutline (renameClass_grows run)

end Outlines

/-- Renaming changes a class file in its names only. In particular strings stay what they are. -/
theorem renameClass_sameOutline (renamer : Renamer) (file result : ClassFile)
    (fits : file.pool.Fits) (run : (renamer.renameClass file).1 = .ok result) :
    file.SameOutline result ∧
      ∀ index text bytes, file.pool.get? index = some (.string text) →
        file.pool.get? text = some (.utf8 bytes) →
        result.pool.get? index = some (.string text) ∧
          result.pool.get? text = some (.utf8 bytes) := by
  obtain ⟨inside, named⟩ := name_of_renameClass run
  obtain ⟨constants, -⟩ := renameClass_renamed fits named run
  refine ⟨sameOutline_of_run fits run, ?_⟩
  intro index text bytes string utf8
  obtain ⟨_, stringStands, rfl⟩ := constants index _ string
  obtain ⟨_, utf8Stands, rfl⟩ := constants text _ utf8
  exact ⟨stringStands, utf8Stands⟩

/-- A string with the text of a class name. -/
def literalFile : ClassFile :=
  { sampleFile with pool := ⟨sampleFile.pool.slots.push (some (.string 14))⟩ }

theorem renameClass_sameOutline_sample : ∃ result,
    ((create sampleMappings sampleHierarchy).renameClass literalFile).1 = .ok result ∧
      literalFile.SameOutline result ∧
      result.pool.get? 23 = some (.string 14) ∧
      result.pool.get? 14 = some (textConstant "c$d") := by
  have run := eq_ok_of_isOk literalFile
    (show ((create sampleMappings sampleHierarchy).renameClass literalFile).1.isOk = true by
      decide +kernel)
  obtain ⟨same, strings⟩ := renameClass_sameOutline (create sampleMappings sampleHierarchy)
    literalFile _ (by decide) run
  exact ⟨_, run, same, strings 23 14 _ (by decide +kernel) (by decide +kernel)⟩

end Renamer

end Deobfuscation
