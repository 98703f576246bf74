import Deobfuscation.Proofs.AncestorSearch
import Deobfuscation.Proofs.ClassRenaming
import Mathlib.Data.Set.Function

/-!
Renaming keeps the hierarchy. Class files name their class, super class and interfaces by class
constants, and all of these are renamed. As long as different classes get different names, the
hierarchy of the new files is the old one with its names changed: the entries are added, replaced
and removed at the same places.
-/

namespace Deobfuscation

namespace Table

section Renaming

variable {Key Value : Type} [DecidableEq Key] {domain : Set Key} {rename : Key → Key} {key : Key}
  {entries : List (Key × Value)} (injective : Set.InjOn rename domain) (member : key ∈ domain)
  (inside : ∀ entry ∈ entries, entry.1 ∈ domain)

include injective member inside

theorem put_map (change : Value → Value) (value : Value) :
    put (rename key) (change value) (entries.map (Prod.map rename change)) =
      (put key value entries).map (Prod.map rename change) := by
  induction entries with
  | nil => rfl
  | cons entry rest ih =>
      obtain ⟨here, later⟩ := List.forall_mem_cons.mp inside
      have same : rename entry.1 = rename key ↔ entry.1 = key := injective.eq_iff here member
      simp only [List.map_cons, put, Prod.map_fst, same]
      split
      · rfl
      · rw [ih later, List.map_cons]

theorem filter_map (change : Value → Value) :
    ((entries.map (Prod.map rename change)).filter fun entry => entry.1 ≠ rename key) =
      (entries.filter fun entry => entry.1 ≠ key).map (Prod.map rename change) := by
  rw [List.filter_map]
  congr 1
  apply List.filter_congr
  intro entry listed
  simp [injective.eq_iff (inside entry listed) member]

end Renaming

end Table

theorem mapM_map_of_ok {Item Other : Type} {read readAgain : Item → Except Failure Other}
    {change : Other → Other} {items : List Item}
    (again : ∀ item ∈ items, ∀ other, read item = .ok other → readAgain item = .ok (change other))
    {others : List Other} (whole : items.mapM read = .ok others) :
    items.mapM readAgain = .ok (others.map change) := by
  induction items generalizing others with
  | nil =>
      cases whole
      rfl
  | cons item rest ih =>
      obtain ⟨here, later⟩ := List.forall_mem_cons.mp again
      simp only [List.mapM_cons, bind_eq_ok] at whole
      obtain ⟨first, firstRead, tail, tailRead, same⟩ := whole
      cases same
      rw [List.mapM_cons, here first firstRead, ih later tailRead]
      rfl

namespace Hierarchy

/-- The same entries in the same order, with other names. -/
def RenamedBy (rename : String → String) (old new : Hierarchy) : Prop :=
  new.parents.entries = old.parents.entries.map (Prod.map rename (List.map rename))

variable {rename : String → String} {domain : Set String} {old new : Hierarchy} {name : String}

theorem RenamedBy.insert (renamed : old.RenamedBy rename new) (injective : Set.InjOn rename domain)
    (member : name ∈ domain) (inside : ∀ key ∈ old.parents.keys, key ∈ domain)
    (parents : List String) :
    (old.insert name parents).RenamedBy rename (new.insert (rename name) (parents.map rename)) := by
  have keys : ∀ entry ∈ old.parents.entries, entry.1 ∈ domain := fun entry listed =>
    inside entry.1 (List.mem_map_of_mem listed)
  unfold RenamedBy at renamed ⊢
  unfold Hierarchy.insert
  rw [List.isEmpty_map]
  split
  · simp only [Table.erase, renamed]
    exact Table.filter_map injective member keys _
  · simp only [Table.insert, renamed]
    exact Table.put_map injective member keys _ parents

theorem keys_insert {parents : List String} {key : String}
    (listed : key ∈ (old.insert name parents).parents.keys) :
    key = name ∨ key ∈ old.parents.keys := by
  unfold Hierarchy.insert at listed
  split at listed
  · exact Or.inr ((List.filter_sublist.map Prod.fst).subset listed)
  · rw [Table.keys_insert] at listed
    split at listed
    · exact Or.inr listed
    · rcases List.mem_append.mp listed with earlier | last
      · exact Or.inr earlier
      · exact Or.inl (List.mem_singleton.mp last)

end Hierarchy

namespace Renamer

section Files

variable {renamer : Renamer} {file result : ClassFile} {name : String}

theorem PoolRenamed.classNameIn (renamed : renamer.PoolRenamed file.pool result.pool)
    {context : Context} {index : UInt16} {text : String}
    (read : Failure.inContext context (file.pool.className index) = .ok text)
    (newContext : Context) :
    Failure.inContext newContext (result.pool.className index) = .ok (renamer.className text) :=
  inContext_eq_ok.mpr (renamed.className (inContext_eq_ok.mp read))

theorem PoolRenamed.parentsIn (renamed : renamer.PoolRenamed file.pool result.pool)
    (sameSuper : result.superClass = file.superClass)
    (sameInterfaces : result.interfaces = file.interfaces) (newName : String)
    {parents : List String} (found : Hierarchy.parentsIn file name = .ok parents) :
    Hierarchy.parentsIn result newName = .ok (parents.map renamer.className) := by
  have interfaces : ∀ {names : List String},
      (file.interfaces.mapM fun index =>
        Failure.inContext (.interface name) (file.pool.className index)) = .ok names →
      (file.interfaces.mapM fun index =>
        Failure.inContext (.interface newName) (result.pool.className index)) =
        .ok (names.map renamer.className) :=
    mapM_map_of_ok fun _ _ _ read => renamed.classNameIn read _
  unfold Hierarchy.parentsIn at found ⊢
  rw [sameSuper, sameInterfaces]
  by_cases none : file.superClass = 0
  · simp only [if_pos none, bind_eq_ok] at found ⊢
    obtain ⟨above, aboveRead, names, read, same⟩ := found
    cases aboveRead
    cases same
    exact ⟨[], rfl, _, interfaces read, rfl⟩
  · simp only [if_neg none, bind_eq_ok] at found ⊢
    obtain ⟨above, aboveRead, names, read, same⟩ := found
    cases same
    cases superRead : Failure.inContext (.superClass name)
        (file.pool.className file.superClass) with
    | error failure =>
        rw [superRead] at aboveRead
        cases aboveRead
    | ok text =>
        rw [superRead] at aboveRead
        cases aboveRead
        exact ⟨[renamer.className text], by rw [renamed.classNameIn superRead]; rfl, _,
          interfaces read, rfl⟩

theorem addClass_renamed {domain : Set String} {old new next : Hierarchy} (fits : file.pool.Fits)
    (run : (renamer.renameClass file).1 = .ok result)
    (injective : Set.InjOn renamer.className domain)
    (member : ∀ name, file.name = .ok name → name ∈ domain)
    (sameKind : ∀ name, file.name = .ok name →
      Hierarchy.isPackageInfo (renamer.className name) = Hierarchy.isPackageInfo name)
    (inside : ∀ key ∈ old.parents.keys, key ∈ domain)
    (renamed : old.RenamedBy renamer.className new) (added : old.addClass file = .ok next) :
    (∀ key ∈ next.parents.keys, key ∈ domain) ∧
      ∃ newNext, new.addClass result = .ok newNext ∧ next.RenamedBy renamer.className newNext := by
  obtain ⟨name, named, ended⟩ := Hierarchy.addClass_eq_ok.mp added
  obtain ⟨pool, declarations⟩ := renameClass_renamed fits named run
  obtain ⟨sameThis, sameSuper, sameInterfaces⟩ : result.thisClass = file.thisClass ∧
      result.superClass = file.superClass ∧ result.interfaces = file.interfaces := by
    rw [declarations.frame]
    exact ⟨rfl, rfl, rfl⟩
  have newNamed : result.name = .ok (renamer.className name) := by
    unfold ClassFile.name
    rw [sameThis]
    exact pool.classNameIn named _
  have newKind := sameKind name named
  rcases ended with ⟨packageInfo, rfl⟩ | ⟨ordinary, parents, found, rfl⟩
  · have newAdded : new.addClass result = .ok new := Hierarchy.addClass_eq_ok.mpr
      ⟨_, newNamed, Or.inl ⟨newKind.trans packageInfo, rfl⟩⟩
    exact ⟨inside, new, newAdded, renamed⟩
  · have newAdded : new.addClass result =
        .ok (new.insert (renamer.className name) (parents.map renamer.className)) :=
      Hierarchy.addClass_eq_ok.mpr ⟨_, newNamed, Or.inr ⟨newKind.trans ordinary, _,
        pool.parentsIn sameSuper sameInterfaces _ found, rfl⟩⟩
    refine ⟨?_, _, newAdded, renamed.insert injective (member name named) inside parents⟩
    intro key listed
    rcases Hierarchy.keys_insert listed with rfl | earlier
    · exact member key named
    · exact inside key earlier

end Files

/-- The hierarchy of renamed class files has the entries of the old one, renamed and in the same
order, if classes of different names keep different names and renaming makes no class one that
only carries notes on a package, nor the other way round. -/
theorem ofClasses_renamed (renamer : Renamer) (files results : List ClassFile)
    (hierarchy : Hierarchy) (fits : ∀ file ∈ files, file.pool.Fits)
    (renamed : List.Forall₂ (fun file result => (renamer.renameClass file).1 = .ok result)
      files results)
    (injective : Set.InjOn renamer.className {name | ∃ file ∈ files, file.name = .ok name})
    (sameKind : ∀ file ∈ files, ∀ name, file.name = .ok name →
      Hierarchy.isPackageInfo (renamer.className name) = Hierarchy.isPackageInfo name)
    (built : Hierarchy.ofClasses files = .ok hierarchy) :
    ∃ newHierarchy, Hierarchy.ofClasses results = .ok newHierarchy ∧
      newHierarchy.parents.entries = hierarchy.parents.entries.map fun entry =>
        (renamer.className entry.1, entry.2.map renamer.className) := by
  -- for any hierarchies on the way, as long as the old one has only names of the files
  have all : ∀ {domain : Set String}, Set.InjOn renamer.className domain →
      (∀ file ∈ files, ∀ name, file.name = .ok name → name ∈ domain) →
      ∀ old new : Hierarchy, (∀ key ∈ old.parents.keys, key ∈ domain) →
      old.RenamedBy renamer.className new → files.foldlM Hierarchy.addClass old = .ok hierarchy →
      ∃ newHierarchy, results.foldlM Hierarchy.addClass new = .ok newHierarchy ∧
        hierarchy.RenamedBy renamer.className newHierarchy := by
    clear injective built
    intro domain injective
    induction renamed with
    | nil =>
        intro _ old new _ same added
        cases added
        exact ⟨new, rfl, same⟩
    | cons run _ ih =>
        intro members old new inside same added
        obtain ⟨headFits, restFits⟩ := List.forall_mem_cons.mp fits
        obtain ⟨headKind, restKind⟩ := List.forall_mem_cons.mp sameKind
        obtain ⟨headMember, restMembers⟩ := List.forall_mem_cons.mp members
        rw [List.foldlM_cons, bind_eq_ok] at added
        obtain ⟨next, first, later⟩ := added
        obtain ⟨nextInside, newNext, newFirst, nextSame⟩ :=
          addClass_renamed headFits run injective headMember headKind inside same first
        obtain ⟨newHierarchy, newLater, whole⟩ :=
          ih restFits restKind restMembers next newNext nextInside nextSame later
        rw [List.foldlM_cons, newFirst]
        exact ⟨newHierarchy, newLater, whole⟩
  exact all injective (fun file listed name named => ⟨file, listed, named⟩) {} {} nofun rfl built

/-- The super class of the sample, with an interface that has no mapping. -/
def sampleSuperFile : ClassFile where
  minor := 0
  major := 52
  pool := .ofList [textConstant "p", .className 1, textConstant "java/lang/Object", .className 3,
    textConstant "i", .className 5]
  access := 0
  thisClass := 2
  superClass := 4
  interfaces := [6]
  fields := []
  methods := []
  attributes := []

theorem ofClasses_renamed_sample : ∃ results newHierarchy,
    List.Forall₂ (fun file result =>
      ((create sampleMappings sampleHierarchy).renameClass file).1 = .ok result)
      [sampleFile, sampleSuperFile] results ∧
    Hierarchy.ofClasses results = .ok newHierarchy ∧
      newHierarchy.parents.entries =
        [("q/C", ["q/P"]), ("q/P", ["java/lang/Object", "i"])] := by
  have names : ∀ file ∈ [sampleFile, sampleSuperFile], ∀ name, file.name = .ok name →
      name = "c" ∨ name = "p" := by
    have first : sampleFile.name = .ok "c" := by decide +kernel
    have second : sampleSuperFile.name = .ok "p" := by decide +kernel
    intro file listed name named
    rcases List.mem_pair.mp listed with rfl | rfl
    · exact Or.inl (Except.ok.inj (named.symm.trans first))
    · exact Or.inr (Except.ok.inj (named.symm.trans second))
  have run := eq_ok_of_isOk sampleFile
    (show ((create sampleMappings sampleHierarchy).renameClass sampleFile).1.isOk = true by
      decide +kernel)
  have superRun := eq_ok_of_isOk sampleSuperFile
    (show ((create sampleMappings sampleHierarchy).renameClass sampleSuperFile).1.isOk = true by
      decide +kernel)
  have renamed : List.Forall₂ (fun file result =>
      ((create sampleMappings sampleHierarchy).renameClass file).1 = .ok result)
      [sampleFile, sampleSuperFile] _ := .cons run (.cons superRun .nil)
  have built := eq_ok_of_isOk ({} : Hierarchy)
    (show (Hierarchy.ofClasses [sampleFile, sampleSuperFile]).isOk = true by decide +kernel)
  obtain ⟨newHierarchy, newBuilt, entries⟩ := ofClasses_renamed _ _ _ _ (by decide) renamed
    (by
      rintro first ⟨file, listed, named⟩ second ⟨other, otherListed, otherNamed⟩
      rcases names file listed first named with rfl | rfl <;>
        rcases names other otherListed second otherNamed with rfl | rfl <;> decide +kernel)
    (by
      intro file listed name named
      rcases names file listed name named with rfl | rfl <;> decide +kernel)
    built
  refine ⟨_, newHierarchy, renamed, newBuilt, entries.trans ?_⟩
  decide +kernel

end Renamer

end Deobfuscation
