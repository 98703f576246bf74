import Deobfuscation.Proofs.AncestorSearch
import Deobfuscation.Proofs.ClassReading
import Deobfuscation.Proofs.RenamingFrame

/-!
Reading renamed class files again. Renaming keeps a class file well-formed, with one exception:
nothing looks at how long the texts are that it adds. So what is written for a renamed class
file reads the same if and only if all its texts have lengths that can be written.
-/

namespace Deobfuscation

open Edit Pool

namespace Pool

section Tiling

variable {first second : List (Option Constant)} {old new : Pool}

theorem isWide_outline (constant : Constant) : constant.outline.isWide = constant.isWide := by
  cases constant <;> rfl

/-- Only the widths of the constants matter. -/
theorem tiled_iff_widths (slots : List (Option Constant)) : Tiled slots ↔
    (slots.map (Option.map Constant.isWide))[0]? ≠ some none ∧
      ∀ position, (slots.map (Option.map Constant.isWide))[position + 1]? = some none ↔
        (slots.map (Option.map Constant.isWide))[position]? = some (some true) := by
  simp [Tiled]

theorem tiled_of_outlines
    (same : first.map (Option.map Constant.outline) = second.map (Option.map Constant.outline))
    (tiled : Tiled second) : Tiled first := by
  have widths := congrArg (List.map (Option.map Constant.isWide)) same
  simp only [List.map_map, Function.comp_def, Option.map_map, isWide_outline] at widths
  rw [tiled_iff_widths] at tiled ⊢
  rw [widths]
  exact tiled

theorem tiled_of_filed (filed : ∀ slot ∈ first, ∃ constant, slot = some constant ∧
    constant.isFiled = true) : Tiled first := by
  induction first with
  | nil => exact tiled_nil
  | cons slot rest ih =>
      obtain ⟨⟨constant, rfl, constantFiled⟩, others⟩ := List.forall_mem_cons.mp filed
      exact (tiled_narrow (isWide_of_isFiled constantFiled)).mpr (ih others)

/-- A well-formed pool grows into a well-formed one, if no text is too long. -/
theorem GrowsInto.wellFormed (grown : old.GrowsInto new) (valid : old.WellFormed)
    (texts : ∀ constant ∈ new.constants, constant.Short) : new.WellFormed := by
  obtain ⟨fits, kept, added, slots, same, filed⟩ := grown
  refine ⟨fits valid.fits, ?_, texts⟩
  rw [slots]
  exact tiled_append (tiled_of_outlines same valid.tiled) (tiled_of_filed filed)

end Tiling

end Pool

namespace Attribute

variable {old new pool : Pool}

theorem WellNamed.grows {item : Attribute} (named : item.WellNamed old)
    (grown : old.GrowsInto new) : item.WellNamed new := by
  obtain ⟨name, found, kind⟩ := named
  refine ⟨name, ?_, kind⟩
  unfold nameAt? at found
  split at found
  · rename_i bytes stands
    cases found
    -- texts have no indices, so the outline of one is the text itself
    obtain ⟨result, now, outlined⟩ := grown.get? stands
    cases result with
    | utf8 text =>
        cases outlined
        simp [nameAt?, now]
    | _ => cases outlined
  · cases found

theorem WellFormed.grows {item : Attribute} (valid : item.WellFormed old)
    (grown : old.GrowsInto new) : item.WellFormed new := by
  induction item using nestedInduction with
  | code name maxStack maxLocals body handlers attributes nested =>
      obtain ⟨named, sized, inside⟩ := valid
      refine ⟨named.grows grown, sized, allWellFormed_iff.mpr ?_⟩
      intro item member
      exact nested item member (allWellFormed_iff.mp inside item member)
  | _ => exact ⟨valid.1.grows grown, valid.2⟩

theorem wellFormed_localsOutline (item : Attribute) :
    item.localsOutline.WellFormed pool ↔ item.WellFormed pool := by
  cases item with
  | localVariables name table =>
      simp [localsOutline, WellFormed, WellNamed, Sized, Attribute.name, kind]
  | _ => exact Iff.rfl

theorem wellFormed_outline (item : Attribute) :
    item.outline.WellFormed pool ↔ item.WellFormed pool := by
  cases item with
  | code name maxStack maxLocals body handlers attributes =>
      simp [outline, WellFormed, WellNamed, Sized, Attribute.name, kind, allWellFormed_iff,
        wellFormed_localsOutline]
  | innerClasses name classes =>
      simp [outline, WellFormed, WellNamed, Sized, Attribute.name, kind]
  | _ => exact Iff.rfl

theorem WellFormed.withoutTypes {item : Attribute} (valid : item.WellFormed pool) :
    item.withoutTypes.WellFormed pool := by
  cases item with
  | code name maxStack maxLocals body handlers attributes =>
      obtain ⟨named, ⟨bodySmall, handlersSmall, attributesSmall⟩, inside⟩ := valid
      have shorter := List.length_filter_le
        (fun item : Attribute => item.kind ≠ .localVariableTypes) attributes
      refine ⟨named, ⟨bodySmall, handlersSmall, by omega⟩, allWellFormed_iff.mpr ?_⟩
      intro item member
      exact allWellFormed_iff.mp inside item (List.mem_of_mem_filter member)
  | _ => exact valid

end Attribute

namespace Member

variable {old new pool : Pool}

theorem WellFormed.grows {member : Member} (valid : member.WellFormed old)
    (grown : old.GrowsInto new) : member.WellFormed new :=
  ⟨valid.1, fun item inside => (valid.2 item inside).grows grown⟩

theorem wellFormed_outline (member : Member) :
    member.outline.WellFormed pool ↔ member.WellFormed pool := by
  simp [outline, WellFormed, Attribute.wellFormed_outline]

theorem WellFormed.withoutTypes {member : Member} (valid : member.WellFormed pool) :
    member.withoutTypes.WellFormed pool := by
  refine ⟨by simpa [Member.withoutTypes] using valid.1, List.forall_mem_map.mpr ?_⟩
  intro item inside
  exact (valid.2 item inside).withoutTypes

end Member

/-- What the outlines alone decide goes over to items with the same outlines. -/
theorem wellFormed_of_outlines {Item : Type} {Good : Item → Prop} {outline : Item → Item}
    {items results : List Item} (decided : ∀ item, Good (outline item) ↔ Good item)
    (same : results.map outline = items.map outline)
    (good : items.length ≤ 65535 ∧ ∀ item ∈ items, Good item) :
    results.length ≤ 65535 ∧ ∀ result ∈ results, Good result := by
  have lengths := congrArg List.length same
  rw [List.length_map, List.length_map] at lengths
  refine ⟨lengths ▸ good.1, ?_⟩
  have outlined : ∀ item ∈ items.map outline, Good item :=
    List.forall_mem_map.mpr fun item member => (decided item).mpr (good.2 item member)
  rw [← same] at outlined
  intro result member
  exact (decided result).mp (outlined _ (List.mem_map_of_mem member))

/-- What differs from a well-formed class file only where renaming may change it is well-formed,
if no text is too long. -/
theorem ClassFile.SameOutline.wellFormed {file result : ClassFile} (same : file.SameOutline result)
    (valid : file.WellFormed) (texts : ∀ constant ∈ result.pool.constants, constant.Short) :
    result.WellFormed where
  pool := same.pool.wellFormed valid.pool texts
  interfaces := by
    rw [same.frame]
    exact valid.interfaces
  fields := by
    apply wellFormed_of_outlines Member.wellFormed_outline same.fields
    exact ⟨valid.fields.1, fun field member => (valid.fields.2 field member).grows same.pool⟩
  methods := by
    have outlines : result.methods.map Member.outline =
        (file.methods.map Member.withoutTypes).map Member.outline := by
      rw [same.methods, List.map_map]
      rfl
    apply wellFormed_of_outlines Member.wellFormed_outline outlines
    -- tables of generic types are dropped first, which leaves shorter lists
    refine ⟨by simpa using valid.methods.1, List.forall_mem_map.mpr ?_⟩
    intro method member
    exact ((valid.methods.2 method member).grows same.pool).withoutTypes
  attributes := by
    apply wellFormed_of_outlines Attribute.wellFormed_outline same.attributes
    exact ⟨valid.attributes.1, fun item member => (valid.attributes.2 item member).grows same.pool⟩

namespace Renamer

/-- Unless it has texts that are too long, a renamed class file can be written and read again. -/
theorem renameClass_reads_iff (mappings : Mappings) (hierarchy : Hierarchy)
    (bytes unread : List UInt8) (file result : ClassFile)
    (read : ClassFile.read bytes = .ok (file, unread))
    (run : ((create mappings hierarchy).renameClass file).1 = .ok result) :
    ClassFile.read result.bytes = .ok (result, []) ↔
      ∀ constant ∈ result.pool.constants, constant.Short := by
  obtain ⟨-, -, valid, -⟩ := ClassFile.spelled_of_read read
  constructor
  · intro again
    obtain ⟨-, -, renamedValid, -⟩ := ClassFile.spelled_of_read again
    exact renamedValid.pool.texts
  · intro texts
    have same := sameOutline_of_run valid.pool.fits run
    have again := ClassFile.read_of_spelled (same.wellFormed valid texts) result.spelled_bytes []
    rwa [List.append_nil] at again

theorem renameClass_reads_iff_sample : ∃ result,
    ((create sampleMappings sampleHierarchy).renameClass sampleFile).1 = .ok result ∧
      ClassFile.read result.bytes = .ok (result, []) := by
  have valid : sampleFile.WellFormed := by decide +kernel
  have read := ClassFile.read_of_spelled valid sampleFile.spelled_bytes []
  have run := eq_ok_of_isOk sampleFile
    (show ((create sampleMappings sampleHierarchy).renameClass sampleFile).1.isOk = true by
      decide +kernel)
  exact ⟨_, run, (renameClass_reads_iff sampleMappings sampleHierarchy _ _ _ _ read run).mpr
    (by decide +kernel)⟩

section LongName

open Text.ModifiedUtf8

/-- A class that has nothing but a name. -/
def bareFile : ClassFile where
  minor := 0
  major := 52
  pool := .ofList [textConstant "a", .className 1]
  access := 0
  thisClass := 2
  superClass := 0
  interfaces := []
  fields := []
  methods := []
  attributes := []

def bareMappings (name : String) : Mappings :=
  .ofClasses [{ originalName := name, obfuscatedName := "a" }]

/-- The new name stands behind the old one, and the class constant has the target. -/
def bareEditing (target : UInt16) (name : String) : Editing where
  pool := .ofList [textConstant "a", .className target, textConstant name]
  interner := { texts := ⟨[(name, 3), ("a", 1)]⟩ }

variable {name : String}

theorem retarget_bare (different : "a" ≠ name) :
    Runs (retarget 1 "a" ((create (bareMappings name) {}).className "a"))
      (.ofPool bareFile.pool) 3 (bareEditing 1 name) := by
  -- the name is compared with the old one only, so nothing has to know what it is
  have unknown : (Editing.ofPool bareFile.pool).interner.texts.get? name = none :=
    if_neg different
  have renamed : (create (bareMappings name) {}).className "a" = name := rfl
  rw [renamed, retarget, if_neg different, internText, runs_bind]
  refine ⟨_, _, runs_get.mpr ⟨rfl, rfl⟩, ?_⟩
  rw [unknown]
  rfl

theorem classConstant_bare (different : "a" ≠ name) :
    Runs ((create (bareMappings name) {}).classConstant 2) (.ofPool bareFile.pool) ()
      (bareEditing 3 name) := by
  apply runs_bind.mpr
  refine ⟨_, _, runs_constant?.mpr ⟨rfl, rfl⟩, ?_⟩
  apply runs_bind.mpr
  refine ⟨"a", .ofPool bareFile.pool, by rfl, ?_⟩
  exact runs_bind.mpr ⟨3, bareEditing 1 name, retarget_bare different, rfl⟩

/-- The class can get any name. -/
theorem renameClass_bare (different : "a" ≠ name) :
    ((create (bareMappings name) {}).renameClass bareFile).1 =
      .ok { bareFile with pool := (bareEditing 3 name).pool } := by
  have classes : Runs (forIndices 3 (create (bareMappings name) {}).classConstant)
      (.ofPool bareFile.pool) () (bareEditing 3 name) :=
    runs_bind.mpr ⟨(), .ofPool bareFile.pool, by rfl,
      runs_bind.mpr ⟨(), bareEditing 3 name, classConstant_bare different, by rfl⟩⟩
  have constants : Runs ((create (bareMappings name) {}).constants "a") (.ofPool bareFile.pool) ()
      (bareEditing 3 name) :=
    runs_bind.mpr ⟨.ofPool bareFile.pool, .ofPool bareFile.pool, by rfl,
      runs_bind.mpr ⟨(), bareEditing 3 name, classes, by rfl⟩⟩
  have parts : Runs ((create (bareMappings name) {}).parts "a" bareFile) (.ofPool bareFile.pool)
      bareFile (bareEditing 3 name) :=
    runs_bind.mpr ⟨(), bareEditing 3 name, constants, by rfl⟩
  have ended : inContext (.renameClass "a") ((create (bareMappings name) {}).parts "a" bareFile)
      (.ofPool bareFile.pool) = _ := runs_inContext.mpr parts
  have named : bareFile.name = .ok "a" := by rfl
  simp only [renameClass, named, ended]

theorem length_unitBytes_pos (unit : Nat) : 0 < (unitBytes unit).length := by
  unfold unitBytes
  split
  · exact Nat.two_pos
  split
  · exact Nat.one_pos
  split
  · exact Nat.two_pos
  · exact Nat.succ_pos 2

/-- Every character takes a byte or more. -/
theorem length_le_length_encode (text : String) :
    text.toList.length ≤ (encode text).length := by
  unfold encode
  induction text.toList with
  | nil => exact Nat.le_refl _
  | cons char rest ih =>
      have positive : 0 < ((charUnits char).flatMap unitBytes).length := by
        have first : ∃ unit units, charUnits char = unit :: units := by
          unfold charUnits
          split <;> exact ⟨_, _, rfl⟩
        obtain ⟨unit, units, cut⟩ := first
        have filled := length_unitBytes_pos unit
        rw [cut, List.flatMap_cons, List.length_append]
        omega
      rw [List.flatMap_cons, List.length_append, List.length_cons]
      omega

def longName (count : Nat) : String := String.ofList (List.replicate count 'x')

theorem length_longName (count : Nat) : (longName count).toList.length = count := by
  rw [longName, String.toList_ofList, List.length_replicate]

/-- A name with one character more than a length of 16 bits can count makes a class file that is
written, but can not be read. -/
theorem renamed_not_always_readable :
    ¬ ∀ (bytes unread : List UInt8) (file result : ClassFile) (mappings : Mappings)
      (hierarchy : Hierarchy), ClassFile.read bytes = .ok (file, unread) → hierarchy.Acyclic →
      ((create mappings hierarchy).renameClass file).1 = .ok result →
      ClassFile.read result.bytes = .ok (result, []) := by
  intro always
  have length := length_longName 65536
  have different : "a" ≠ longName 65536 := by
    intro same
    rw [← same] at length
    exact absurd length (by decide)
  have read : ClassFile.read (bareFile.bytes ++ []) = .ok (bareFile, []) := by rfl
  have again := always _ _ _ _ (bareMappings (longName 65536)) {} read
    (Hierarchy.acyclic_of_rank (fun _ => 0) nofun) (renameClass_bare different)
  -- whatever is read has short texts, and the class file as it was renamed has not
  obtain ⟨-, -, valid, -⟩ := ClassFile.spelled_of_read again
  have short : (encode (longName 65536)).length ≤ 65535 :=
    valid.pool.texts (textConstant (longName 65536)) (by simp [bareEditing, constants_ofList])
  have long := length_le_length_encode (longName 65536)
  omega

end LongName

end Renamer

end Deobfuscation
