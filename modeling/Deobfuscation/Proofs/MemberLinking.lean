import Deobfuscation.Proofs.AncestorSearch
import Deobfuscation.Proofs.ClassRenaming
import Deobfuscation.Proofs.CollisionTables

/-!
Members of a whole program. All class files are renamed with the mappings that collisions
leave and with the hierarchy of these files. A reference to a method that a class declares
then still names it, also through classes that inherit it. For fields this depends on the
ancestors, because a declared field asks only its own class and a reference asks them all.
-/

namespace Deobfuscation

open Edit Pool

/-- What a reference says about the member it means. -/
structure Reference where
  kind : MemberKind
  owner : String
  name : String
  descriptor : String
  deriving DecidableEq

namespace Pool

/-- The member reference at an index, in texts. -/
def reference? (pool : Pool) (index : UInt16) : Option Reference :=
  match pool.get? index with
  | some (.memberRef kind owner pair) =>
      match pool.className owner, pool.pair? pair with
      | .ok owner, some (name, descriptor) => some { kind, owner, name, descriptor }
      | _, _ => none
  | _ => none

def memberTexts? (pool : Pool) (member : Member) : Option (String × String) :=
  match pool.text member.name, pool.text member.descriptor with
  | .ok name, .ok descriptor => some (name, descriptor)
  | _, _ => none

theorem reference?_eq_some_iff {pool : Pool} {index : UInt16} {kind : MemberKind}
    {owner name descriptor : String} :
    pool.reference? index = some ⟨kind, owner, name, descriptor⟩ ↔
      ∃ ownerIndex pair, pool.get? index = some (.memberRef kind ownerIndex pair) ∧
        pool.className ownerIndex = .ok owner ∧ pool.pair? pair = some (name, descriptor) := by
  unfold reference?
  constructor
  · intro read
    split at read
    · rename_i found ownerIndex pair stands
      split at read
      · rename_i ownerText nameText descriptorText ownerRead pairRead
        cases read
        exact ⟨ownerIndex, pair, stands, ownerRead, pairRead⟩
      · cases read
    · cases read
  · rintro ⟨ownerIndex, pair, stands, ownerRead, pairRead⟩
    simp [stands, ownerRead, pairRead]

theorem memberTexts?_eq_some_iff {pool : Pool} {member : Member} {name descriptor : String} :
    pool.memberTexts? member = some (name, descriptor) ↔
      pool.text member.name = .ok name ∧ pool.text member.descriptor = .ok descriptor := by
  unfold memberTexts?
  constructor
  · intro read
    split at read
    · rename_i nameText descriptorText nameRead descriptorRead
      cases read
      exact ⟨nameRead, descriptorRead⟩
    · cases read
  · rintro ⟨nameRead, descriptorRead⟩
    simp [nameRead, descriptorRead]

end Pool

namespace Renamer

variable {renamer : Renamer}

theorem member_eq_method {kind : MemberKind} {owner name descriptor : String}
    (other : kind ≠ .field) :
    renamer.member kind owner name descriptor = renamer.method owner name descriptor := by
  cases kind with
  | field => exact absurd rfl other
  | method => rfl
  | interfaceMethod => rfl

/-- A reference keeps its kind and gets the new names of its owner and of what is found from
there. -/
theorem PoolRenamed.reference {old new : Pool} (renamed : renamer.PoolRenamed old new)
    {index : UInt16} {kind : MemberKind} {owner name descriptor : String}
    (read : old.reference? index = some ⟨kind, owner, name, descriptor⟩) :
    new.reference? index = some ⟨kind, renamer.className owner,
      renamer.member kind (renamer.ownerName owner) name (renamer.signature descriptor),
      renamer.signature descriptor⟩ := by
  obtain ⟨ownerIndex, pair, stands, ownerRead, pairRead⟩ := reference?_eq_some_iff.mp read
  obtain ⟨_, now, target, rfl, pairs⟩ := renamed index _ stands
  exact reference?_eq_some_iff.mpr ⟨ownerIndex, target, now, renamed.className ownerRead,
    referenceRenamed_iff.mp pairs owner name descriptor ownerRead pairRead⟩

section Declarations

variable {inside : String} {file result : ClassFile} {member declared : Member}

theorem DeclarationsRenamed.field (renamed : renamer.DeclarationsRenamed inside file result)
    (declares : (member, declared) ∈ file.fields.zip result.fields) {name : String}
    (read : file.pool.text member.name = .ok name) :
    result.pool.text declared.name = .ok (renamer.declaredField inside name) :=
  (List.forall₂_zip renamed.fields declares).name name read

theorem DeclarationsRenamed.method (renamed : renamer.DeclarationsRenamed inside file result)
    (declares : (member, declared) ∈ file.methods.zip result.methods) {name descriptor : String}
    (read : file.pool.memberTexts? member = some (name, descriptor)) :
    result.pool.memberTexts? declared =
      some (renamer.method inside name (renamer.signature descriptor),
        renamer.signature descriptor) := by
  have related : List.Forall₂ (fun method declared =>
      ∃ ordinal, renamer.MethodRenamed inside file.pool result.pool (method, ordinal) declared)
      (file.methods.zipIdx.map Prod.fst) result.methods :=
    List.forall₂_map_left_iff.mpr (renamed.methods.imp fun item _ changed => ⟨item.2, changed⟩)
  rw [List.zipIdx_map_fst] at related
  obtain ⟨ordinal, changed⟩ := List.forall₂_zip related declares
  obtain ⟨nameRead, descriptorRead⟩ := memberTexts?_eq_some_iff.mp read
  exact memberTexts?_eq_some_iff.mpr ⟨changed.name name descriptor nameRead descriptorRead,
    changed.descriptor descriptor descriptorRead⟩

theorem DeclarationsRenamed.className (renamed : renamer.DeclarationsRenamed inside file result)
    (pools : renamer.PoolRenamed file.pool result.pool) (named : file.name = .ok inside) :
    result.name = .ok (renamer.className inside) := by
  have same : result.thisClass = file.thisClass := by rw [renamed.frame]
  unfold ClassFile.name at named ⊢
  rw [same]
  cases read : file.pool.className file.thisClass with
  | error failure =>
      rw [read] at named
      cases named
  | ok text =>
      rw [read] at named
      cases named
      rw [pools.className read]
      rfl

end Declarations

end Renamer

/-- All class files of a program are renamed with the mappings and the hierarchy that belong to
them. The classes have different names and are told apart by their new names too: no other class
gets the new name of one of them. Pools fit because the files were read. -/
structure ProgramRenamed (mappings : Mappings) (files : List ClassFile) (renamer : Renamer)
    (results : List ClassFile) : Prop where
  fits : ∀ file ∈ files, file.pool.Fits
  distinct : files.Pairwise fun first second => first.name ≠ second.name
  plain : ∀ file ∈ files, ∀ name, file.name = .ok name → name.toList.head? ≠ some '['
  unambiguous : ∀ file ∈ files, ∀ name, file.name = .ok name → mappings.Unambiguous name
  created : renamer = .create renamer.mappings renamer.hierarchy
  built : Hierarchy.ofClasses files = .ok renamer.hierarchy
  acyclic : renamer.hierarchy.Acyclic
  resolved : ((Collision.resolve mappings files).run.run #[]).1 = .ok renamer.mappings
  renamed : List.Forall₂ (fun file result => (renamer.renameClass file).1 = .ok result)
    files results

namespace ProgramRenamed

variable {mappings : Mappings} {files results : List ClassFile} {renamer : Renamer}
  {file result user used : ClassFile} {owner name descriptor : String} {kind : MemberKind}
  {index : UInt16}

theorem ownerName_eq (program : ProgramRenamed mappings files renamer results)
    (inside : file ∈ files) (named : file.name = .ok owner) : renamer.ownerName owner = owner := by
  have run : Runs (Collision.resolve mappings files) #[] renamer.mappings
      ((Collision.resolve mappings files).run.run #[]).2 := Prod.ext program.resolved rfl
  have unambiguous :=
    Collision.unambiguous_resolve run (program.unambiguous file inside owner named)
  rw [program.created]
  exact Renamer.ownerName_eq _ (program.plain file inside owner named) unambiguous

theorem renamed_of_mem (program : ProgramRenamed mappings files renamer results)
    (inProgram : (file, result) ∈ files.zip results) (named : file.name = .ok owner) :
    renamer.PoolRenamed file.pool result.pool ∧
      renamer.DeclarationsRenamed owner file result :=
  Renamer.renameClass_renamed (program.fits file (List.of_mem_zip inProgram).1) named
    (List.forall₂_zip program.renamed inProgram)

theorem reference_renamed (program : ProgramRenamed mappings files renamer results)
    (inside : file ∈ files) (named : file.name = .ok owner)
    (inProgram : (user, used) ∈ files.zip results)
    (read : user.pool.reference? index = some ⟨kind, owner, name, descriptor⟩) :
    used.pool.reference? index = some ⟨kind, renamer.className owner,
      renamer.member kind owner name (renamer.signature descriptor),
      renamer.signature descriptor⟩ := by
  obtain ⟨userName, userNamed⟩ :=
    Renamer.name_of_renameClass (List.forall₂_zip program.renamed inProgram)
  have now := (program.renamed_of_mem inProgram userNamed).1.reference read
  rw [program.ownerName_eq inside named] at now
  exact now

end ProgramRenamed

section Programs

def programRenamer (mappings : Mappings) (files : List ClassFile) : Renamer :=
  .create (((Collision.resolve mappings files).run.run #[]).1.toOption.getD {})
    ((Hierarchy.ofClasses files).toOption.getD {})

def programResults (mappings : Mappings) (files : List ClassFile) : List ClassFile :=
  files.map fun file => ((programRenamer mappings files).renameClass file).1.toOption.getD file

theorem pairwise_of_names {files : List ClassFile} {names : List String}
    (named : files.map ClassFile.name = names.map .ok) (distinct : names.Nodup) :
    files.Pairwise fun first second => first.name ≠ second.name := by
  have apart : (files.map ClassFile.name).Nodup := by
    rw [named]
    exact distinct.map fun _ _ equal => Except.ok.inj equal
  exact List.pairwise_map.mp apart

/-- A program is renamed if every part of the work succeeds and its classes can be told apart. -/
theorem programRenamed_of_isOk {mappings : Mappings} {files : List ClassFile} (names : List String)
    (rank : String → Nat) (fits : ∀ file ∈ files, file.pool.Fits)
    (named : files.map ClassFile.name = names.map .ok) (distinct : names.Nodup)
    (plain : ∀ name ∈ names, name.toList.head? ≠ some '[')
    (unambiguous : ∀ name ∈ names, mappings.Unambiguous name)
    (built : (Hierarchy.ofClasses files).isOk = true)
    (lower : ∀ entry ∈ (programRenamer mappings files).hierarchy.parents.entries,
      ∀ parent ∈ entry.2, rank parent < rank entry.1)
    (resolved : ((Collision.resolve mappings files).run.run #[]).1.isOk = true)
    (renamed : ∀ file ∈ files, ((programRenamer mappings files).renameClass file).1.isOk = true) :
    ProgramRenamed mappings files (programRenamer mappings files)
      (programResults mappings files) := by
  have known : ∀ file ∈ files, ∀ name, file.name = .ok name → name ∈ names := by
    intro file inside name same
    have member : file.name ∈ files.map ClassFile.name := List.mem_map.mpr ⟨file, inside, rfl⟩
    rw [named, same] at member
    obtain ⟨other, listed, equal⟩ := List.mem_map.mp member
    cases equal
    exact listed
  exact {
    fits
    distinct := pairwise_of_names named distinct
    plain := fun file inside name same => plain name (known file inside name same)
    unambiguous := fun file inside name same => unambiguous name (known file inside name same)
    created := rfl
    built := eq_ok_of_isOk ({} : Hierarchy) built
    acyclic := Hierarchy.acyclic_of_rank rank lower
    resolved := eq_ok_of_isOk ({} : Mappings) resolved
    renamed := List.forall₂_map_right_iff.mpr
      (List.forall₂_same.mpr fun file inside => eq_ok_of_isOk file (renamed file inside)) }

end Programs

section Shadowing

theorem mem_zip_of_getElem? {Item Other : Type} {items : List Item} {others : List Other}
    (place : Nat) {item : Item} {other : Other} (first : items[place]? = some item)
    (second : others[place]? = some other) : (item, other) ∈ items.zip others := by
  have together : (items.zip others)[place]? = some (item, other) :=
    List.getElem?_zip_eq_some.mpr ⟨first, second⟩
  exact List.mem_of_getElem? together

def shadowMappings : Mappings := .ofClasses
  [{ originalName := "P", obfuscatedName := "p"
     fields := .ofList [("f", "x")], methods := .ofList [(⟨"m", "()V"⟩, "run")] }]

def shadowParent : ClassFile where
  minor := 0
  major := 52
  pool := .ofList [Renamer.textConstant "p", .className 1, Renamer.textConstant "f",
    Renamer.textConstant "I", Renamer.textConstant "m", Renamer.textConstant "()V"]
  access := 0
  thisClass := 2
  superClass := 0
  interfaces := []
  fields := [⟨0, 3, 4, []⟩]
  methods := [⟨0, 5, 6, []⟩]
  attributes := []

def shadowChild : ClassFile where
  minor := 0
  major := 52
  pool := .ofList [Renamer.textConstant "c", .className 1, Renamer.textConstant "p", .className 3,
    Renamer.textConstant "f", Renamer.textConstant "I", .nameAndType 5 6, .memberRef .field 2 7,
    Renamer.textConstant "m", Renamer.textConstant "()V", .nameAndType 9 10,
    .memberRef .method 2 11]
  access := 0
  thisClass := 2
  superClass := 4
  interfaces := []
  fields := [⟨0, 5, 6, []⟩]
  methods := [⟨0, 9, 10, []⟩]
  attributes := []

def shadowFiles : List ClassFile := [shadowParent, shadowChild]

def shadowRenamer : Renamer := programRenamer shadowMappings shadowFiles

def shadowResult (file : ClassFile) : ClassFile :=
  (shadowRenamer.renameClass file).1.toOption.getD file

def shadowResults : List ClassFile := [shadowResult shadowParent, shadowResult shadowChild]

theorem shadowParent_mem : (shadowParent, shadowResult shadowParent) ∈
    shadowFiles.zip shadowResults := mem_zip_of_getElem? 0 rfl rfl

theorem shadowChild_mem : (shadowChild, shadowResult shadowChild) ∈
    shadowFiles.zip shadowResults := mem_zip_of_getElem? 1 rfl rfl

theorem shadow_renamed :
    ProgramRenamed shadowMappings shadowFiles shadowRenamer shadowResults :=
  programRenamed_of_isOk ["p", "c"] (fun name => if name = "c" then 1 else 0) (by decide)
    (by decide +kernel) (by decide) (by decide) (by decide +kernel) (by decide +kernel)
    (by decide +kernel) (by decide +kernel) (by decide +kernel)

end Shadowing

section Fields

variable {mappings : Mappings} {files results : List ClassFile} {renamer : Renamer}
  {file result user used : ClassFile} {owner name descriptor : String} {index : UInt16}
  {field declared : Member}

/-- The two ways to name a field meet exactly if the class has an entry for it, or if the first
ancestor that has one keeps the name. -/
theorem field_eq_declaredField_iff (acyclic : renamer.hierarchy.Acyclic) :
    renamer.field owner name = renamer.declaredField owner name ↔
      (renamer.ownField? name owner).isSome = true ∨
        ∀ inherited, (renamer.hierarchy.parentsOf owner).findSome?
          (renamer.hierarchy.find (renamer.ownField? name)) = some inherited →
          inherited = name := by
  unfold Renamer.field Renamer.declaredField Renamer.findField?
  rw [Hierarchy.find_eq acyclic]
  cases renamer.ownField? name owner with
  | some mapped => simp
  -- the declared field keeps its name, and the reference takes what the parents answer
  | none =>
      cases (renamer.hierarchy.parentsOf owner).findSome?
          (renamer.hierarchy.find (renamer.ownField? name)) with
      | none => simp
      | some inherited => simp

/-- A reference to a field that a class declares names this field after renaming exactly if the
class has an entry for it, or if the first ancestor that has one keeps the name. -/
theorem field_reference_linked_iff (program : ProgramRenamed mappings files renamer results)
    (inProgram : (file, result) ∈ files.zip results) (named : file.name = .ok owner)
    (declares : (field, declared) ∈ file.fields.zip result.fields)
    (fieldName : file.pool.text field.name = .ok name)
    (userInProgram : (user, used) ∈ files.zip results)
    (read : user.pool.reference? index = some ⟨.field, owner, name, descriptor⟩) :
    ∃ newName linked, result.pool.text declared.name = .ok newName ∧
      used.pool.reference? index =
        some ⟨.field, renamer.className owner, linked, renamer.signature descriptor⟩ ∧
      (linked = newName ↔ (renamer.ownField? name owner).isSome = true ∨
        ∀ inherited, (renamer.hierarchy.parentsOf owner).findSome?
          (renamer.hierarchy.find (renamer.ownField? name)) = some inherited →
          inherited = name) := by
  have inside := (List.of_mem_zip inProgram).1
  obtain ⟨-, declarations⟩ := program.renamed_of_mem inProgram named
  exact ⟨renamer.declaredField owner name, renamer.field owner name,
    declarations.field declares fieldName,
    program.reference_renamed inside named userInProgram read,
    field_eq_declaredField_iff program.acyclic⟩

/-- The child has no entry for its field, and the first ancestor that has one maps it to another
name, so the reference does not name the field. -/
theorem field_reference_linked_iff_sample : ∃ declared : Member,
    (shadowResult shadowChild).fields = [declared] ∧
      (shadowResult shadowChild).pool.text declared.name = .ok "f" ∧
      (shadowResult shadowChild).pool.reference? 8 = some ⟨.field, "c", "x", "I"⟩ ∧
      ¬ ((shadowRenamer.ownField? "f" "c").isSome = true ∨
        ∀ inherited, (shadowRenamer.hierarchy.parentsOf "c").findSome?
          (shadowRenamer.hierarchy.find (shadowRenamer.ownField? "f")) = some inherited →
          inherited = "f") := by
  have single : (shadowResult shadowChild).fields.length = 1 := by decide +kernel
  obtain ⟨declared, fields⟩ := List.length_eq_one_iff.mp single
  obtain ⟨newName, linked, nameRead, read, iff⟩ :=
    field_reference_linked_iff shadow_renamed shadowChild_mem (by decide +kernel)
      (mem_zip_of_getElem? 0 rfl (by rw [fields]; rfl)) (by decide +kernel) shadowChild_mem
      (by decide +kernel : shadowChild.pool.reference? 8 = some ⟨.field, "c", "f", "I"⟩)
  have kept : (shadowResult shadowChild).fields.map
      (fun field => (shadowResult shadowChild).pool.text field.name) = [.ok "f"] := by
    decide +kernel
  have referred : (shadowResult shadowChild).pool.reference? 8 =
      some ⟨.field, "c", "x", "I"⟩ := by decide +kernel
  rw [fields, List.map_singleton, nameRead] at kept
  cases kept
  rw [referred] at read
  cases read
  exact ⟨declared, fields, nameRead, referred, mt iff.mpr (by decide)⟩

/-- The name of a field and that in a reference to it can be different: the child has no mapping,
so its field keeps the name, and the reference takes the name that the parent has. -/
theorem field_references_not_always_linked :
    ¬ ∀ (mappings : Mappings) (files results : List ClassFile) (renamer : Renamer),
      ProgramRenamed mappings files renamer results →
      ∀ file result owner field declared name, (file, result) ∈ files.zip results →
        file.name = .ok owner → (field, declared) ∈ file.fields.zip result.fields →
        file.pool.text field.name = .ok name →
        ∀ user used index descriptor, (user, used) ∈ files.zip results →
          user.pool.reference? index = some ⟨.field, owner, name, descriptor⟩ →
          ∃ newOwner newName newDescriptor, result.pool.text declared.name = .ok newName ∧
            used.pool.reference? index =
              some ⟨.field, newOwner, newName, newDescriptor⟩ := by
  intro linked
  have kept : ((shadowResult shadowChild).fields[0]?).map
      (fun field => (shadowResult shadowChild).pool.text field.name) = some (.ok "f") := by
    decide +kernel
  have referred : (shadowResult shadowChild).pool.reference? 8 =
      some ⟨.field, "c", "x", "I"⟩ := by decide +kernel
  obtain ⟨declared, stands, declaredName⟩ := Option.map_eq_some_iff.mp kept
  obtain ⟨newOwner, newName, newDescriptor, nameRead, read⟩ := linked _ _ _ _ shadow_renamed
    _ _ "c" _ declared "f" shadowChild_mem (by decide +kernel) (mem_zip_of_getElem? 0 rfl stands)
    (by decide +kernel) _ _ 8 "I" shadowChild_mem (by decide +kernel)
  rw [declaredName] at nameRead
  cases nameRead
  rw [referred] at read
  simp at read

end Fields

section Methods

variable {mappings : Mappings} {files results : List ClassFile} {renamer : Renamer}
  {file result : ClassFile} {owner name descriptor : String} {method declared : Member}

/-- References to a declared method name it after renaming. The same holds for references through
a class that inherits the method, and for methods that override it, if no class on the chain of
super classes up to the declaring class has an entry of its own and an entry is found from there. -/
theorem method_references_linked (program : ProgramRenamed mappings files renamer results)
    (ordinary : ∀ file ∈ files, ∀ name, file.name = .ok name →
      Hierarchy.isPackageInfo name = false)
    (inProgram : (file, result) ∈ files.zip results) (named : file.name = .ok owner)
    (declares : (method, declared) ∈ file.methods.zip result.methods)
    (texts : file.pool.memberTexts? method = some (name, descriptor)) :
    ∃ newOwner newName, result.name = .ok newOwner ∧
      result.pool.memberTexts? declared = some (newName, renamer.signature descriptor) ∧
      (∀ user used index kind, (user, used) ∈ files.zip results → kind ≠ .field →
        user.pool.reference? index = some ⟨kind, owner, name, descriptor⟩ →
        used.pool.reference? index =
          some ⟨kind, newOwner, newName, renamer.signature descriptor⟩) ∧
      ∀ heir inherited child, (heir, inherited) ∈ files.zip results → heir.name = .ok child →
        Relation.ReflTransGen (fun lower upper => Hierarchy.SuperClass files lower upper ∧
          renamer.ownMethod? name (renamer.signature descriptor) lower = none) child owner →
        (renamer.findMethod? owner name (renamer.signature descriptor)).isSome = true →
        (∀ user used index kind, (user, used) ∈ files.zip results → kind ≠ .field →
          user.pool.reference? index = some ⟨kind, child, name, descriptor⟩ →
          ∃ newChild, inherited.name = .ok newChild ∧ used.pool.reference? index =
            some ⟨kind, newChild, newName, renamer.signature descriptor⟩) ∧
        ∀ override overriding, (override, overriding) ∈ heir.methods.zip inherited.methods →
          heir.pool.memberTexts? override = some (name, descriptor) →
          inherited.pool.memberTexts? overriding =
            some (newName, renamer.signature descriptor) := by
  obtain ⟨pools, declarations⟩ := program.renamed_of_mem inProgram named
  refine ⟨renamer.className owner, renamer.method owner name (renamer.signature descriptor),
    declarations.className pools named, declarations.method declares texts, ?_, ?_⟩
  · intro user used index kind userInProgram other read
    rw [← Renamer.member_eq_method other]
    exact program.reference_renamed (List.of_mem_zip inProgram).1 named userInProgram read
  · intro heir inherited child heirInProgram heirNamed chain found
    obtain ⟨heirPools, heirDeclarations⟩ := program.renamed_of_mem heirInProgram heirNamed
    obtain ⟨answer, foundAbove⟩ := Option.isSome_iff_exists.mp found
    -- nothing on the chain answers before the declaring class does
    have foundBelow : renamer.findMethod? child name (renamer.signature descriptor) = some answer :=
      Hierarchy.find_of_superClasses program.acyclic program.built program.distinct ordinary chain
        foundAbove
    have same : renamer.method child name (renamer.signature descriptor) =
        renamer.method owner name (renamer.signature descriptor) := by
      unfold Renamer.method
      rw [foundBelow, foundAbove]
    constructor
    · intro user used index kind userInProgram other read
      refine ⟨renamer.className child, heirDeclarations.className heirPools heirNamed, ?_⟩
      rw [← same, ← Renamer.member_eq_method other]
      exact program.reference_renamed (List.of_mem_zip heirInProgram).1 heirNamed userInProgram read
    · intro override overriding overrides overrideTexts
      rw [← same]
      exact heirDeclarations.method overrides overrideTexts

theorem method_references_linked_sample : ∃ declared newName,
    (shadowResult shadowParent).pool.memberTexts? declared =
        some (newName, shadowRenamer.signature "()V") ∧
      ∃ newChild, (shadowResult shadowChild).name = .ok newChild ∧
        (shadowResult shadowChild).pool.reference? 12 =
          some ⟨.method, newChild, newName, shadowRenamer.signature "()V"⟩ := by
  have present : ((shadowResult shadowParent).methods[0]?).isSome = true := by decide +kernel
  obtain ⟨declared, stands⟩ := Option.isSome_iff_exists.mp present
  have parentNamed : shadowParent.name = .ok "p" := by decide +kernel
  have childNamed : shadowChild.name = .ok "c" := by decide +kernel
  have ordinary : ∀ file ∈ shadowFiles, ∀ name, file.name = .ok name →
      Hierarchy.isPackageInfo name = false := by
    intro file inside name named
    rcases List.mem_cons.mp inside with rfl | inside
    · rw [parentNamed] at named
      cases named
      decide
    · rw [List.mem_singleton.mp inside, childNamed] at named
      cases named
      decide
  have texts : shadowParent.pool.memberTexts? ⟨0, 5, 6, []⟩ = some ("m", "()V") := by
    decide +kernel
  obtain ⟨newOwner, newName, -, newTexts, -, inherited⟩ := method_references_linked shadow_renamed
    ordinary shadowParent_mem parentNamed (mem_zip_of_getElem? 0 rfl stands) texts
  have above : Hierarchy.SuperClass shadowFiles "c" "p" :=
    ⟨shadowChild, (List.of_mem_zip shadowChild_mem).1, childNamed, by decide, by decide +kernel⟩
  obtain ⟨linked, -⟩ := inherited _ _ "c" shadowChild_mem childNamed
    (.single ⟨above, by decide +kernel⟩) (by decide +kernel)
  obtain ⟨newChild, named, read⟩ := linked _ _ 12 .method shadowChild_mem (by decide)
    (by decide +kernel)
  exact ⟨declared, newName, newTexts, newChild, named, read⟩

end Methods

end Deobfuscation
