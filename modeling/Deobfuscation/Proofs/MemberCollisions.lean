import Deobfuscation.Proofs.CollisionMoves
import Deobfuscation.Proofs.MemberLinking

/-!
Members of one class after renaming. A declared field asks only its own class, so two fields
with different names never meet. A declared method may also take its name from an ancestor,
and nothing moves out of the way of such a name. So two methods meet exactly if one of them
inherits the name that the other one has.
-/

namespace Deobfuscation

namespace Collision

section Declared

variable {Item Other : Type}

theorem mem_of_mapM {read : Item → Except Failure Other} {items : List Item}
    {results : List Other} (run : items.mapM read = .ok results) {item : Item} {result : Other}
    (inside : item ∈ items) (found : read item = .ok result) : result ∈ results := by
  induction items generalizing results with
  | nil => cases inside
  | cons head rest ih =>
      simp only [List.mapM_cons, bind_eq_ok] at run
      obtain ⟨first, firstRead, others, othersRead, same⟩ := run
      cases same
      rcases List.mem_cons.mp inside with rfl | later
      · rw [found] at firstRead
        cases firstRead
        exact List.mem_cons_self
      · exact List.mem_cons_of_mem first (ih othersRead later)

theorem mem_fieldNames {file : ClassFile} {names : List String} (run : fieldNames file = .ok names)
    {field : Member} (inside : field ∈ file.fields) {name : String}
    (read : file.pool.text field.name = .ok name) : name ∈ names :=
  mem_of_mapM run inside read

theorem mem_methodKeys {classNames : Table String String} {file : ClassFile}
    {keys : List MethodKey} (run : methodKeys classNames file = .ok keys) {method : Member}
    (inside : method ∈ file.methods) {name descriptor : String}
    (read : file.pool.memberTexts? method = some (name, descriptor)) :
    ⟨name, Signature.map classNames descriptor⟩ ∈ keys := by
  obtain ⟨nameRead, descriptorRead⟩ := Pool.memberTexts?_eq_some_iff.mp read
  apply mem_of_mapM run inside
  rw [nameRead, descriptorRead]
  rfl

end Declared

/-- The mappings that a pass over class files with different names leaves. -/
structure Cleared (mappings : Mappings) (files : List ClassFile) (resolved : Mappings) : Prop where
  distinct : files.Pairwise fun first second => first.name ≠ second.name
  run : ((resolve mappings files).run.run #[]).1 = .ok resolved

namespace Cleared

variable {mappings resolved : Mappings} {files : List ClassFile} {file : ClassFile}
  {owner : String}

theorem runs (cleared : Cleared mappings files resolved) :
    Runs (resolve mappings files) #[] resolved ((resolve mappings files).run.run #[]).2 :=
  Prod.ext cleared.run rfl

theorem attached (cleared : Cleared mappings files resolved) (inside : file ∈ files)
    (named : file.name = .ok owner) :
    mappings.get? owner = none ∧ resolved.get? owner = none ∨
      ∃ mapping attached, mappings.get? owner = some mapping ∧
        resolved.get? owner = some attached ∧
        Attached mappings.classNames file mapping attached := by
  have related := get?_resolve cleared.runs cleared.distinct inside named
  generalize mappings.get? owner = old, resolved.get? owner = new at related
  cases related with
  | none => exact Or.inl ⟨rfl, rfl⟩
  | some attaches => exact Or.inr ⟨_, _, rfl, rfl, attaches⟩

theorem signature_eq (cleared : Cleared mappings files resolved) :
    Signature.map resolved.classNames = Signature.map mappings.classNames := by
  rw [classNames_resolve cleared.runs]

end Cleared

end Collision

section Fields

variable {mappings resolved : Mappings} {files : List ClassFile} {hierarchy : Hierarchy}
  {file result : ClassFile} {owner : String}

open Collision

def Mappings.FieldsApart (mappings : Mappings) : Prop :=
  ∀ entry ∈ mappings.classes.entries, entry.2.fields.values.Nodup

instance (mappings : Mappings) : Decidable mappings.FieldsApart :=
  inferInstanceAs (Decidable (∀ entry ∈ mappings.classes.entries, _))

theorem declaredField_of_attached {mapping attached : ClassMapping} {names : List String}
    {name : String} (found : resolved.get? owner = some attached)
    (fields : attached.fields = fieldNaming.settle mapping.fields names) :
    (Renamer.create resolved hierarchy).declaredField owner name =
      fieldNaming.moved (fieldNaming.settle mapping.fields names) name := by
  simp [Renamer.declaredField, Renamer.ownField?, Renamer.create, found, ClassMapping.field?,
    fields, Naming.moved, fieldNaming]

theorem declaredField_injOn (cleared : Cleared mappings files resolved)
    (apart : mappings.FieldsApart) (inside : file ∈ files) (named : file.name = .ok owner)
    {first second : Member} (firstInside : first ∈ file.fields)
    (secondInside : second ∈ file.fields) {firstName secondName : String}
    (firstRead : file.pool.text first.name = .ok firstName)
    (secondRead : file.pool.text second.name = .ok secondName)
    (same : (Renamer.create resolved hierarchy).declaredField owner firstName =
      (Renamer.create resolved hierarchy).declaredField owner secondName) :
    firstName = secondName := by
  rcases cleared.attached inside named with
    ⟨-, unmapped⟩ | ⟨mapping, attached, mapped, found, attaches⟩
  · simpa [Renamer.declaredField, Renamer.ownField?, Renamer.create, unmapped] using same
  · obtain ⟨names, namesRead, fields⟩ := attaches.fields
    rw [declaredField_of_attached found fields, declaredField_of_attached found fields] at same
    have distinct := apart (owner, mapping) (Table.mem_of_find mapped)
    exact Naming.moved_injOn fieldNaming mapping.fields names distinct
      (mem_fieldNames namesRead firstInside firstRead)
      (mem_fieldNames namesRead secondInside secondRead) same

/-- Two fields with different names have different names after renaming, and a field without an
own mapping never gets a name that its class gives to another field. The ancestors have no say in
this. -/
theorem renamed_fields_apart (apart : mappings.FieldsApart)
    (cleared : Cleared mappings files resolved) (inside : file ∈ files)
    (fits : file.pool.Fits) (named : file.name = .ok owner)
    (run : ((Renamer.create resolved hierarchy).renameClass file).1 = .ok result) :
    (∀ first firstNew second secondNew firstName secondName,
      (first, firstNew) ∈ file.fields.zip result.fields →
      (second, secondNew) ∈ file.fields.zip result.fields →
      file.pool.text first.name = .ok firstName → file.pool.text second.name = .ok secondName →
      firstName ≠ secondName →
      ∃ firstText secondText, result.pool.text firstNew.name = .ok firstText ∧
        result.pool.text secondNew.name = .ok secondText ∧ firstText ≠ secondText) ∧
    ∀ mapping field fieldNew name, mappings.get? owner = some mapping →
      (field, fieldNew) ∈ file.fields.zip result.fields →
      file.pool.text field.name = .ok name → mapping.field? name = none →
      ∃ text, result.pool.text fieldNew.name = .ok text ∧ text ∉ mapping.fields.values := by
  have declarations := (Renamer.renameClass_renamed fits named run).2
  constructor
  · intro first firstNew second secondNew firstName secondName firstZip secondZip firstRead
      secondRead different
    refine ⟨_, _, declarations.field firstZip firstRead,
      declarations.field secondZip secondRead, ?_⟩
    intro same
    exact different (declaredField_injOn cleared apart inside named (List.of_mem_zip firstZip).1
      (List.of_mem_zip secondZip).1 firstRead secondRead same)
  · intro mapping field fieldNew name mapped fieldZip read unmapped
    refine ⟨_, declarations.field fieldZip read, ?_⟩
    rcases cleared.attached inside named with ⟨missing, -⟩ | ⟨_, attached, mapped', found, attaches⟩
    · rw [missing] at mapped
      cases mapped
    · rw [mapped] at mapped'
      cases mapped'
      obtain ⟨names, namesRead, fields⟩ := attaches.fields
      rw [declaredField_of_attached found fields]
      exact Naming.moved_not_mem_targets fieldNaming mapping.fields names unmapped
        (mem_fieldNames namesRead (List.of_mem_zip fieldZip).1 read)

/-- A class with a mapped field whose target and first candidate are names of other fields. -/
def crowdedMappings : Mappings := .ofClasses
  [{ originalName := "P", obfuscatedName := "p", fields := .ofList [("a", "x")] }]

def crowdedFile : ClassFile where
  minor := 0
  major := 52
  pool := .ofList [Renamer.textConstant "p", .className 1, Renamer.textConstant "a",
    Renamer.textConstant "I", Renamer.textConstant "x", Renamer.textConstant "x_1"]
  access := 0
  thisClass := 2
  superClass := 0
  interfaces := []
  fields := [⟨0, 3, 4, []⟩, ⟨0, 5, 4, []⟩, ⟨0, 6, 4, []⟩]
  methods := []
  attributes := []

def crowdedResult : ClassFile :=
  ((programRenamer crowdedMappings [crowdedFile]).renameClass crowdedFile).1.toOption.getD
    crowdedFile

theorem renamed_fields_apart_crowded : ∃ (firstNew secondNew : Member) (first second : String),
    crowdedResult.fields[1]? = some firstNew ∧ crowdedResult.fields[2]? = some secondNew ∧
      crowdedResult.pool.text firstNew.name = .ok first ∧
      crowdedResult.pool.text secondNew.name = .ok second ∧ first ≠ second := by
  have cleared : Cleared crowdedMappings [crowdedFile]
      (programRenamer crowdedMappings [crowdedFile]).mappings :=
    ⟨List.pairwise_singleton _ _, eq_ok_of_isOk ({} : Mappings) (by decide +kernel)⟩
  have run : ((Renamer.create (programRenamer crowdedMappings [crowdedFile]).mappings
      (programRenamer crowdedMappings [crowdedFile]).hierarchy).renameClass crowdedFile).1 =
      .ok crowdedResult := eq_ok_of_isOk crowdedFile (by decide +kernel)
  have firstPresent : (crowdedResult.fields[1]?).isSome = true := by decide +kernel
  have secondPresent : (crowdedResult.fields[2]?).isSome = true := by decide +kernel
  obtain ⟨firstNew, firstStands⟩ := Option.isSome_iff_exists.mp firstPresent
  obtain ⟨secondNew, secondStands⟩ := Option.isSome_iff_exists.mp secondPresent
  obtain ⟨first, second, firstRead, secondRead, different⟩ :=
    (renamed_fields_apart (by decide +kernel) cleared List.mem_cons_self (by decide)
      (by decide +kernel : crowdedFile.name = .ok "p") run).1 _ firstNew _ secondNew "x" "x_1"
      (mem_zip_of_getElem? 1 rfl firstStands) (mem_zip_of_getElem? 2 rfl secondStands)
      (by decide +kernel) (by decide +kernel) (by decide)
  exact ⟨firstNew, secondNew, first, second, firstStands, secondStands, firstRead, secondRead,
    different⟩

end Fields

/-- Renaming with the mappings that collisions leave and the hierarchy of the same class files,
which have different names. -/
structure Prepared (mappings : Mappings) (files : List ClassFile) (renamer : Renamer) : Prop where
  cleared : Collision.Cleared mappings files renamer.mappings
  created : renamer = .create renamer.mappings renamer.hierarchy
  built : Hierarchy.ofClasses files = .ok renamer.hierarchy
  acyclic : renamer.hierarchy.Acyclic

theorem prepared_of_isOk {mappings : Mappings} {files : List ClassFile} (names : List String)
    (rank : String → Nat) (named : files.map ClassFile.name = names.map .ok)
    (distinct : names.Nodup) (built : (Hierarchy.ofClasses files).isOk = true)
    (lower : ∀ entry ∈ (programRenamer mappings files).hierarchy.parents.entries,
      ∀ parent ∈ entry.2, rank parent < rank entry.1)
    (resolved : ((Collision.resolve mappings files).run.run #[]).1.isOk = true) :
    Prepared mappings files (programRenamer mappings files) where
  cleared := ⟨pairwise_of_names named distinct, eq_ok_of_isOk ({} : Mappings) resolved⟩
  created := rfl
  built := eq_ok_of_isOk ({} : Hierarchy) built
  acyclic := Hierarchy.acyclic_of_rank rank lower

section Methods

variable {mappings : Mappings} {files : List ClassFile} {renamer : Renamer}
  {file result : ClassFile} {owner name descriptor : String}

open Collision

def Mappings.MethodsApart (mappings : Mappings) : Prop :=
  ∀ entry ∈ mappings.classes.entries, (methodNaming.targets entry.2.methods).Nodup

instance (mappings : Mappings) : Decidable mappings.MethodsApart :=
  inferInstanceAs (Decidable (∀ entry ∈ mappings.classes.entries, _))

/-- The name that a method takes from an ancestor, if its own class has no entry for it. -/
def Renamer.inheritedMethod? (renamer : Renamer) (owner name descriptor : String) :
    Option String :=
  match renamer.ownMethod? name descriptor owner with
  | some _ => none
  | none => (renamer.hierarchy.parentsOf owner).findSome?
      (renamer.hierarchy.find (renamer.ownMethod? name descriptor))

theorem Renamer.method_eq (acyclic : renamer.hierarchy.Acyclic) (owner name descriptor : String) :
    renamer.method owner name descriptor =
      (renamer.inheritedMethod? owner name descriptor).getD
        ((renamer.ownMethod? name descriptor owner).getD name) := by
  unfold method findMethod? inheritedMethod?
  rw [Hierarchy.find_eq acyclic]
  cases renamer.ownMethod? name descriptor owner with
  | none => simp
  | some mapped => simp

/-- What a class itself says about its methods never sends two of them to one place. -/
theorem ownMethod_injOn (prepared : Prepared mappings files renamer)
    (apart : mappings.MethodsApart) (inside : file ∈ files) (named : file.name = .ok owner)
    {first second : Member} (firstInside : first ∈ file.methods)
    (secondInside : second ∈ file.methods) {firstName secondName firstType secondType : String}
    (firstRead : file.pool.memberTexts? first = some (firstName, firstType))
    (secondRead : file.pool.memberTexts? second = some (secondName, secondType))
    (types : renamer.signature firstType = renamer.signature secondType)
    (same : (renamer.ownMethod? firstName (renamer.signature firstType) owner).getD firstName =
      (renamer.ownMethod? secondName (renamer.signature secondType) owner).getD secondName) :
    firstName = secondName := by
  have signatures : renamer.signature = Signature.map mappings.classNames := by
    rw [← prepared.cleared.signature_eq, prepared.created]
    rfl
  rcases prepared.cleared.attached inside named with
    ⟨-, unmapped⟩ | ⟨mapping, attached, mapped, found, attaches⟩
  · simpa [Renamer.ownMethod?, unmapped] using same
  · obtain ⟨keys, keysRead, methods⟩ := attaches.methods
    have firstKey := mem_methodKeys keysRead firstInside firstRead
    have secondKey := mem_methodKeys keysRead secondInside secondRead
    rw [← signatures] at firstKey secondKey
    have distinct := apart (owner, mapping) (Table.mem_of_find mapped)
    simp only [Renamer.ownMethod?, found, Option.bind_some, ClassMapping.method?, methods] at same
    have sameKey := Naming.moved_injOn methodNaming mapping.methods keys distinct firstKey
      secondKey (congrArg₂ MethodKey.mk same types)
    exact congrArg MethodKey.name sameKey

/-- Two methods of a class have one name and descriptor after renaming exactly if they have one
descriptor and one of them takes from an ancestor the name that the other one has. Names that a
class gives to its own methods never meet. -/
theorem renamed_methods_meet_iff (prepared : Prepared mappings files renamer)
    (apart : mappings.MethodsApart) (inside : file ∈ files) (fits : file.pool.Fits)
    (named : file.name = .ok owner) (run : (renamer.renameClass file).1 = .ok result)
    {first firstNew second secondNew : Member}
    (firstZip : (first, firstNew) ∈ file.methods.zip result.methods)
    (secondZip : (second, secondNew) ∈ file.methods.zip result.methods)
    {firstName secondName firstType secondType : String}
    (firstRead : file.pool.memberTexts? first = some (firstName, firstType))
    (secondRead : file.pool.memberTexts? second = some (secondName, secondType))
    (different : (firstName, renamer.signature firstType) ≠
      (secondName, renamer.signature secondType)) :
    result.pool.memberTexts? firstNew = result.pool.memberTexts? secondNew ↔
      renamer.signature firstType = renamer.signature secondType ∧
        (renamer.inheritedMethod? owner firstName (renamer.signature firstType) =
            some (renamer.method owner secondName (renamer.signature secondType)) ∨
          renamer.inheritedMethod? owner secondName (renamer.signature secondType) =
            some (renamer.method owner firstName (renamer.signature firstType))) := by
  have declarations := (Renamer.renameClass_renamed fits named run).2
  rw [declarations.method firstZip firstRead, declarations.method secondZip secondRead,
    Option.some.injEq, Prod.mk.injEq, and_comm]
  refine and_congr_right fun types => ?_
  have firstEq := Renamer.method_eq prepared.acyclic owner firstName (renamer.signature firstType)
  have secondEq :=
    Renamer.method_eq prepared.acyclic owner secondName (renamer.signature secondType)
  constructor
  · intro same
    cases firstInherits : renamer.inheritedMethod? owner firstName
        (renamer.signature firstType) with
    | some inherited =>
        rw [firstInherits, Option.getD_some] at firstEq
        exact Or.inl (by rw [← same, firstEq])
    | none =>
        cases secondInherits : renamer.inheritedMethod? owner secondName
            (renamer.signature secondType) with
        | some inherited =>
            rw [secondInherits, Option.getD_some] at secondEq
            exact Or.inr (by rw [same, secondEq])
        | none =>
            -- neither inherits, so both names come from the class itself
            rw [firstEq, secondEq, firstInherits, secondInherits] at same
            have names := ownMethod_injOn prepared apart inside named
              (List.of_mem_zip firstZip).1 (List.of_mem_zip secondZip).1 firstRead secondRead
              types same
            exact absurd (Prod.ext names types) different
  · rintro (inherits | inherits)
    · rw [firstEq, inherits, Option.getD_some]
    · rw [secondEq, inherits, Option.getD_some]

/-- A child of the shadowed class that declares the mapped method of its parent, and another
method that has the name this one gets. -/
def heirFile : ClassFile where
  minor := 0
  major := 52
  pool := .ofList [Renamer.textConstant "c", .className 1, Renamer.textConstant "p", .className 3,
    Renamer.textConstant "m", Renamer.textConstant "()V", Renamer.textConstant "run"]
  access := 0
  thisClass := 2
  superClass := 4
  interfaces := []
  fields := []
  methods := [⟨0, 5, 6, []⟩, ⟨0, 7, 6, []⟩]
  attributes := []

def heirFiles : List ClassFile := [shadowParent, heirFile]

def heirRenamer : Renamer := programRenamer shadowMappings heirFiles

def heirResult : ClassFile := (heirRenamer.renameClass heirFile).1.toOption.getD heirFile

theorem heir_prepared : Prepared shadowMappings heirFiles heirRenamer :=
  prepared_of_isOk ["p", "c"] (fun name => if name = "c" then 1 else 0) (by decide +kernel)
    (by decide) (by decide +kernel) (by decide +kernel) (by decide +kernel)

theorem heir_renamed : (heirRenamer.renameClass heirFile).1 = .ok heirResult :=
  eq_ok_of_isOk heirFile (by decide +kernel)

/-- The first method inherits its name from the parent, and the second one keeps this name. -/
theorem renamed_methods_meet_iff_heir : ∃ first second : Member,
    heirResult.methods = [first, second] ∧
      heirRenamer.inheritedMethod? "c" "m" "()V" = some "run" ∧
      heirRenamer.method "c" "run" "()V" = "run" ∧
      heirResult.pool.memberTexts? first = some ("run", "()V") ∧
      heirResult.pool.memberTexts? second = some ("run", "()V") := by
  have pair : heirResult.methods.length = 2 := by decide +kernel
  obtain ⟨first, second, methods⟩ := List.length_eq_two.mp pair
  have inherits : heirRenamer.inheritedMethod? "c" "m" "()V" = some "run" := by decide +kernel
  have keeps : heirRenamer.method "c" "run" "()V" = "run" := by decide +kernel
  have type : heirRenamer.signature "()V" = "()V" := by decide +kernel
  have named : heirFile.name = .ok "c" := by decide +kernel
  have iff := renamed_methods_meet_iff heir_prepared (by decide +kernel)
    (List.mem_cons_of_mem _ List.mem_cons_self) (by decide) named heir_renamed
    (mem_zip_of_getElem? 0 rfl (by rw [methods]; rfl))
    (mem_zip_of_getElem? 1 rfl (by rw [methods]; rfl))
    (by decide +kernel : heirFile.pool.memberTexts? ⟨0, 5, 6, []⟩ = some ("m", "()V"))
    (by decide +kernel : heirFile.pool.memberTexts? ⟨0, 7, 6, []⟩ = some ("run", "()V"))
    (by decide +kernel)
  rw [type] at iff
  have meet := iff.mpr ⟨rfl, Or.inl (by rw [inherits, keeps])⟩
  have texts : heirResult.methods.map heirResult.pool.memberTexts? =
      [some ("run", "()V"), some ("run", "()V")] := by decide +kernel
  rw [methods, List.map_cons] at texts
  have firstTexts := (List.cons.inj texts).1
  exact ⟨first, second, methods, inherits, keeps, firstTexts, meet ▸ firstTexts⟩

/-- Two methods of a class can meet: the child has no mapping, one of its methods takes the name
that the parent gives it, and the other one has that name already. -/
theorem renamed_methods_not_always_apart :
    ¬ ∀ (mappings : Mappings) (files : List ClassFile) (renamer : Renamer),
      Prepared mappings files renamer → mappings.MethodsApart →
      ∀ file ∈ files, file.pool.Fits → ∀ result, (renamer.renameClass file).1 = .ok result →
        ∀ first firstNew second secondNew firstName firstType secondName secondType,
          (first, firstNew) ∈ file.methods.zip result.methods →
          (second, secondNew) ∈ file.methods.zip result.methods →
          file.pool.memberTexts? first = some (firstName, firstType) →
          file.pool.memberTexts? second = some (secondName, secondType) →
          (firstName, renamer.signature firstType) ≠ (secondName, renamer.signature secondType) →
          result.pool.memberTexts? firstNew ≠ result.pool.memberTexts? secondNew := by
  intro apart
  have firstTexts : (heirResult.methods[0]?).map heirResult.pool.memberTexts? =
      some (some ("run", "()V")) := by decide +kernel
  have secondTexts : (heirResult.methods[1]?).map heirResult.pool.memberTexts? =
      some (some ("run", "()V")) := by decide +kernel
  obtain ⟨firstNew, firstStands, firstRead⟩ := Option.map_eq_some_iff.mp firstTexts
  obtain ⟨secondNew, secondStands, secondRead⟩ := Option.map_eq_some_iff.mp secondTexts
  apply apart _ _ _ heir_prepared (by decide +kernel) heirFile
    (List.mem_cons_of_mem _ List.mem_cons_self) (by decide) _ heir_renamed _ firstNew _ secondNew
    "m" "()V" "run" "()V" (mem_zip_of_getElem? 0 rfl firstStands)
    (mem_zip_of_getElem? 1 rfl secondStands) (by decide +kernel) (by decide +kernel)
    (by decide +kernel)
  rw [firstRead, secondRead]

end Methods

end Deobfuscation
