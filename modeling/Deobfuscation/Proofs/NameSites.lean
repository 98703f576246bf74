import Deobfuscation.Proofs.EditSteps

/-!
Where renaming reads names. Everything it looks up in a class file is listed here once, in the
constants of the pool and in the attributes, fields and methods. What holds at all of these sites
holds wherever renaming reads.
-/

namespace Deobfuscation

open Pool

inductive Site where
  | className (index : UInt16)
  /-- A descriptor or a signature. -/
  | type (index : UInt16)
  | reference (kind : MemberKind) (owner pair : UInt16)
  | field (index : UInt16)
  | method (name descriptor : UInt16)
  /-- The name of a local variable in the code of a method. -/
  | localName (index : UInt16)
  | generics
  /-- What the class says about a nested class. -/
  | nested (entry : InnerClass)

def Constant.sites : Constant → List Site
  | .className name => [.className name]
  | .nameAndType _ descriptor => [.type descriptor]
  | .methodType descriptor => [.type descriptor]
  | .memberRef kind owner pair => [.reference kind owner pair]
  | _ => []

namespace Attribute

def signatureSites : Attribute → List Site
  | .signature _ index => [.type index]
  | _ => []

def classSites : Attribute → List Site
  | .innerClasses _ classes => classes.map .nested
  | item => item.signatureSites

def codeSites : Attribute → List Site
  | .localVariables _ table => table.flatMap fun entry => [.localName entry.name, .type entry.type]
  | .localVariableTypes .. => [.generics]
  | _ => []

def methodSites : Attribute → List Site
  | .code _ _ _ _ _ attributes => attributes.flatMap codeSites
  | item => item.signatureSites

end Attribute

namespace Member

def fieldSites (field : Member) : List Site :=
  .field field.name :: .type field.descriptor ::
    field.attributes.flatMap Attribute.signatureSites

def methodSites (method : Member) : List Site :=
  .method method.name method.descriptor :: .type method.descriptor ::
    method.attributes.flatMap Attribute.methodSites

end Member

namespace ClassFile

def sites (file : ClassFile) : List Site :=
  file.pool.constants.flatMap Constant.sites ++ file.attributes.flatMap Attribute.classSites ++
    file.fields.flatMap Member.fieldSites ++ file.methods.flatMap Member.methodSites

/-- What holds at all sites of a class file, by the parts that they stand in. -/
theorem forall_sites_iff {file : ClassFile} {Holds : Site → Prop} :
    (∀ site ∈ file.sites, Holds site) ↔
      (∀ constant ∈ file.pool.constants, ∀ site ∈ constant.sites, Holds site) ∧
      (∀ item ∈ file.attributes, ∀ site ∈ item.classSites, Holds site) ∧
      (∀ field ∈ file.fields, ∀ site ∈ field.fieldSites, Holds site) ∧
      ∀ method ∈ file.methods, ∀ site ∈ method.methodSites, Holds site := by
  simp only [sites, List.forall_mem_append, List.forall_mem_flatMap, and_assoc]

end ClassFile

instance decidableForallOk {Item : Type} {outcome : Except Failure Item} {Holds : Item → Prop}
    [DecidablePred Holds] : Decidable (∀ item, outcome = .ok item → Holds item) :=
  match outcome with
  | .ok item => decidable_of_iff (Holds item)
      ⟨fun holds _ same => Except.ok.inj same ▸ holds, fun all => all item rfl⟩
  | .error _ => isTrue nofun

theorem Pool.mem_constants {pool : Pool} {index : UInt16} {constant : Constant}
    (stands : pool.get? index = some constant) : constant ∈ pool.constants := by
  have slot := (get?_eq_some_iff.mp stands).2
  have inside : some constant ∈ pool.slots.toList :=
    Array.mem_toList_iff.mpr (Array.mem_of_getElem? slot)
  exact List.mem_filterMap.mpr ⟨_, inside, rfl⟩

end Deobfuscation
