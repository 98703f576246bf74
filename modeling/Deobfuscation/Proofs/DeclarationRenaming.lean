import Deobfuscation.Proofs.ConstantRenaming
import Mathlib.Data.List.Forall2

/-!
Renaming declarations. After the constants, attributes, fields and methods get their new
names one after another, and each of them may add texts to the pool. Texts never move, so
what is read on the way is what the old pool holds, and an index that is given out stays
good to the end.
-/

namespace Deobfuscation

open Edit Pool

namespace Renamer

section Relations

variable (renamer : Renamer) (inside : String) (old new : Pool)

/-- An entry about a nested class has the part of the new inner name behind the new outer name
and a `$`. If the names are not of this form, or one is missing, it keeps its name. -/
structure InnerClassRenamed (entry result : InnerClass) : Prop where
  frame : result = { entry with name := result.name }
  incomplete : entry.outer = 0 ∨ entry.inner = 0 → result.name = entry.name
  nested : entry.outer ≠ 0 → entry.inner ≠ 0 → ∀ outer inner simple,
    old.className entry.outer = .ok outer → old.className entry.inner = .ok inner →
    renamer.className inner = renamer.className outer ++ "$" ++ simple →
    new.text result.name = .ok simple
  apart : ∀ outer inner,
    old.className entry.outer = .ok outer → old.className entry.inner = .ok inner →
    (∀ simple, renamer.className inner ≠ renamer.className outer ++ "$" ++ simple) →
    result.name = entry.name

/-- Signatures are mapped wherever they stand, and other attributes stay. -/
def SignatureRenamed : Attribute → Attribute → Prop
  | .signature name index, result => ∃ target, result = .signature name target ∧
      TextBecomes renamer.signature old new index target
  | other, result => result = other

def ClassAttributeRenamed : Attribute → Attribute → Prop
  | .innerClasses name classes, result => ∃ entries, result = .innerClasses name entries ∧
      List.Forall₂ (renamer.InnerClassRenamed old new) classes entries
  | other, result => renamer.SignatureRenamed old new other result

/-- A local variable, given with its position, in the method with this position. A snowman in its
name marks it as obfuscated. -/
structure LocalRenamed (ordinal : Nat) (item : Local × Nat) (result : Local) : Prop where
  frame : result = { item.1 with name := result.name, type := result.type }
  marked : ∀ text, old.text item.1.name = .ok text → '\u2603' ∈ text.toList →
    new.text result.name = .ok s!"local{ordinal}_{item.2}"
  unmarked : ∀ text, old.text item.1.name = .ok text → '\u2603' ∉ text.toList →
    new.text result.name = .ok text
  type : TextBecomes renamer.signature old new item.1.type result.type

def CodeAttributeRenamed (ordinal : Nat) : Attribute → Attribute → Prop
  | .localVariables name table, result => ∃ locals, result = .localVariables name locals ∧
      List.Forall₂ (renamer.LocalRenamed old new ordinal) table.zipIdx locals
  | other, result => result = other

/-- Code loses its tables of generic types; its other attributes stay in order. -/
def MethodAttributeRenamed (ordinal : Nat) : Attribute → Attribute → Prop
  | .code name maxStack maxLocals body handlers attributes, result =>
      ∃ results, result = .code name maxStack maxLocals body handlers results ∧
        (∀ item ∈ results, item.kind ≠ .localVariableTypes) ∧
        List.Forall₂ (renamer.CodeAttributeRenamed old new ordinal)
          (attributes.filter fun item => item.kind ≠ .localVariableTypes) results
  | other, result => renamer.SignatureRenamed old new other result

/-- A declared field has the name that the mapping of its own class gives it, whatever the parents
say. -/
structure FieldRenamed (field result : Member) : Prop where
  access : result.access = field.access
  name : ∀ text, old.text field.name = .ok text → new.text result.name =
    .ok (((renamer.mappings.get? inside).bind fun mapping => mapping.fields.get? text).getD text)
  descriptor : TextBecomes renamer.signature old new field.descriptor result.descriptor
  attributes : List.Forall₂ (renamer.SignatureRenamed old new) field.attributes result.attributes

/-- A declared method, given with its position, has the name that is found from its class on. -/
structure MethodRenamed (item : Member × Nat) (result : Member) : Prop where
  access : result.access = item.1.access
  name : ∀ name descriptor, old.text item.1.name = .ok name →
    old.text item.1.descriptor = .ok descriptor →
    new.text result.name = .ok (renamer.method inside name (renamer.signature descriptor))
  descriptor : TextBecomes renamer.signature old new item.1.descriptor result.descriptor
  attributes : List.Forall₂ (renamer.MethodAttributeRenamed old new item.2)
    item.1.attributes result.attributes

/-- Position by position, what a class file declares is renamed. Nothing else changes but the
pool. -/
structure DeclarationsRenamed (file result : ClassFile) : Prop where
  frame : result = { file with
    pool := result.pool
    attributes := result.attributes
    fields := result.fields
    methods := result.methods }
  attributes : List.Forall₂ (renamer.ClassAttributeRenamed file.pool result.pool)
    file.attributes result.attributes
  fields : List.Forall₂ (renamer.FieldRenamed inside file.pool result.pool)
    file.fields result.fields
  methods : List.Forall₂ (renamer.MethodRenamed inside file.pool result.pool)
    file.methods.zipIdx result.methods

end Relations

structure Underway (renamer : Renamer) (old : Pool) (editing : Editing) : Prop where
  sound : editing.Sound
  renamed : renamer.PoolRenamed old editing.pool

/-- The edit only adds constants. What it gives is right in every pool that the pool after it
grows to. -/
def Gives {Item : Type} (renamer : Renamer) (old : Pool) (edit : Edit Item)
    (Becomes : Pool → Item → Prop) : Prop :=
  ∀ before item after, Underway renamer old before → Runs edit before item after →
    Underway renamer old after ∧ before.pool.Extends after.pool ∧
      ∀ last, after.pool.Extends last → Becomes last item

section Edits

variable {renamer : Renamer} {old : Pool} {Item Other : Type} {before after : Editing}

theorem Underway.grow (underway : Underway renamer old before) (sound : after.Sound)
    (extended : before.pool.Extends after.pool) : Underway renamer old after :=
  ⟨sound, underway.renamed.extend extended⟩

theorem Underway.text (underway : Underway renamer old before) {index : UInt16}
    {text read : String} (stood : old.text index = .ok text)
    (stands : before.pool.text index = .ok read) : text = read := by
  have kept := underway.renamed.texts.text stood
  rw [stands] at kept
  cases kept
  rfl

/-- Class names in the pool are the new ones already. -/
theorem Underway.className (underway : Underway renamer old before) {index : UInt16}
    {text read : String} (stood : old.className index = .ok text)
    (stands : before.pool.className index = .ok read) : read = renamer.className text := by
  have now := underway.renamed.className stood
  rw [stands] at now
  cases now
  rfl

theorem mapM_gives {edit : Item → Edit Other} {Becomes : Pool → Item → Other → Prop}
    (each : ∀ item, Gives renamer old (edit item) fun last => Becomes last item)
    (items : List Item) :
    Gives renamer old (items.mapM edit) fun last => List.Forall₂ (Becomes last) items := by
  induction items with
  | nil =>
      intro before results after underway run
      rw [List.mapM_nil] at run
      obtain ⟨rfl, rfl⟩ := runs_pure.mp run
      exact ⟨underway, extends_refl _, fun _ _ => .nil⟩
  | cons item rest ih =>
      intro before results after underway run
      simp only [List.mapM_cons, runs_bind, runs_pure] at run
      obtain ⟨first, middle, firstRun, others, _, othersRun, rfl, rfl⟩ := run
      obtain ⟨midway, headGrown, head⟩ := each item _ _ _ underway firstRun
      obtain ⟨done, tailGrown, tail⟩ := ih _ _ _ midway othersRun
      refine ⟨done, extends_trans headGrown tailGrown, ?_⟩
      intro last grown
      exact .cons (head last (extends_trans tailGrown grown)) (tail last grown)

theorem retarget_gives {index : UInt16} {text new : String}
    (underway : Underway renamer old before) (read : before.pool.text index = .ok text)
    {target : UInt16} (run : Runs (retarget index text new) before target after) :
    Underway renamer old after ∧ before.pool.Extends after.pool ∧
      ∀ last, after.pool.Extends last → last.text target = .ok new := by
  obtain ⟨sound, extended, stands, -⟩ := retarget_sound underway.sound read run
  exact ⟨underway.grow sound extended, extended, fun last grown => grown.text stands⟩

theorem descriptorAt_gives (index : UInt16) :
    Gives renamer old (renamer.descriptorAt index) fun last =>
      TextBecomes renamer.signature old last index := by
  intro before target after underway run
  obtain ⟨sound, extended, becomes⟩ := descriptorAt_sound underway.sound run
  refine ⟨underway.grow sound extended, extended, ?_⟩
  intro last grown
  exact textBecomes_of_keeps underway.renamed.texts grown.texts becomes

theorem simpleName?_eq_some_iff {outer inner simple : String} :
    simpleName? outer inner = some simple ↔ inner = outer ++ "$" ++ simple := by
  simp only [simpleName?, Option.map_eq_some_iff, Text.stripStart?_eq_some]
  constructor
  · rintro ⟨rest, same, rfl⟩
    rw [← String.toList_inj]
    simpa using same
  · rintro rfl
    exact ⟨simple.toList, by simp, by simp⟩

theorem innerClass_gives (inside : String) (entry : InnerClass) :
    Gives renamer old (innerClass inside entry) fun last =>
      renamer.InnerClassRenamed old last entry := by
  intro before result after underway run
  unfold innerClass at run
  split at run
  · rename_i incomplete
    obtain ⟨rfl, rfl⟩ := runs_pure.mp run
    refine ⟨underway, extends_refl _, ?_⟩
    intro last _
    refine ⟨rfl, fun _ => rfl, ?_, fun _ _ _ _ _ => rfl⟩
    intro outerSet innerSet
    rcases incomplete with missing | missing
    · exact absurd missing outerSet
    · exact absurd missing innerSet
  · rename_i complete
    simp only [runs_bind, runs_className] at run
    obtain ⟨outer, before, ⟨outerRead, rfl⟩, inner, before, ⟨innerRead, rfl⟩, run⟩ := run
    split at run
    · rename_i noSimple
      simp only [runs_bind, runs_note, runs_pure] at run
      obtain ⟨_, _, rfl, rfl, rfl⟩ := run
      refine ⟨underway.grow (underway.sound.with_notices _) (extends_refl _), extends_refl _, ?_⟩
      intro last _
      refine ⟨rfl, fun missing => absurd missing complete, ?_, fun _ _ _ _ _ => rfl⟩
      intro _ _ oldOuter oldInner simple outerStood innerStood same
      obtain rfl := underway.className outerStood outerRead
      obtain rfl := underway.className innerStood innerRead
      rw [simpleName?_eq_some_iff.mpr same] at noSimple
      cases noSimple
    · rename_i simple found
      have same := simpleName?_eq_some_iff.mp found
      have given : ∀ {last : Pool} {target : UInt16}, last.text target = .ok simple →
          renamer.InnerClassRenamed old last entry { entry with name := target } := by
        intro last target stands
        refine ⟨rfl, fun missing => absurd missing complete, ?_, ?_⟩
        · intro _ _ oldOuter oldInner other outerStood innerStood otherSame
          obtain rfl := underway.className outerStood outerRead
          obtain rfl := underway.className innerStood innerRead
          rw [simpleName?_eq_some_iff.mpr otherSame] at found
          cases found
          exact stands
        · intro oldOuter oldInner outerStood innerStood never
          obtain rfl := underway.className outerStood outerRead
          obtain rfl := underway.className innerStood innerRead
          exact absurd same (never simple)
      simp only [runs_bind, runs_get] at run
      obtain ⟨_, _, ⟨rfl, rfl⟩, run⟩ := run
      split at run
      · rename_i text read
        simp only [runs_bind, runs_pure] at run
        obtain ⟨target, _, retargeted, rfl, rfl⟩ := run
        obtain ⟨done, grown, stands⟩ := retarget_gives underway read retargeted
        exact ⟨done, grown, fun last further => given (stands last further)⟩
      · simp only [runs_bind, runs_pure] at run
        obtain ⟨target, _, interned, rfl, rfl⟩ := run
        obtain ⟨sound, grown, stands, -⟩ := internText_sound underway.sound interned
        exact ⟨underway.grow sound grown, grown, fun last further => given (further.text stands)⟩

theorem signature_gives (context : Context) (name index : UInt16) :
    Gives renamer old
      (do return .signature name (← inContext context (renamer.descriptorAt index))) fun last =>
      renamer.SignatureRenamed old last (.signature name index) := by
  intro before result after underway run
  simp only [runs_bind, runs_inContext, runs_pure] at run
  obtain ⟨target, _, described, rfl, rfl⟩ := run
  obtain ⟨done, grown, becomes⟩ := descriptorAt_gives index _ _ _ underway described
  exact ⟨done, grown, fun last further => ⟨target, rfl, becomes last further⟩⟩

theorem pure_gives {item : Item} {Becomes : Pool → Item → Prop}
    (right : ∀ last, Becomes last item) : Gives renamer old (pure item) Becomes := by
  intro before result after underway run
  obtain ⟨rfl, rfl⟩ := runs_pure.mp run
  exact ⟨underway, extends_refl _, fun last _ => right last⟩

theorem classAttribute_gives (inside : String) (item : Attribute) :
    Gives renamer old (renamer.classAttribute inside item) fun last =>
      renamer.ClassAttributeRenamed old last item := by
  cases item with
  | signature name index => exact signature_gives _ name index
  | innerClasses name classes =>
      intro before result after underway run
      simp only [classAttribute, runs_bind, runs_pure] at run
      obtain ⟨entries, _, entriesRun, rfl, rfl⟩ := run
      have each : ∀ entry, Gives renamer old
          (inContext (.innerClass entry) (innerClass inside entry)) fun last =>
          renamer.InnerClassRenamed old last entry := by
        intro entry before result after underway run
        exact innerClass_gives inside entry _ _ _ underway (runs_inContext.mp run)
      obtain ⟨done, grown, becomes⟩ := mapM_gives each classes _ _ _ underway entriesRun
      exact ⟨done, grown, fun last further => ⟨entries, rfl, becomes last further⟩⟩
  | _ => exact pure_gives fun _ => rfl

theorem fieldAttribute_gives (field : String) (item : Attribute) :
    Gives renamer old (renamer.fieldAttribute field item) fun last =>
      renamer.SignatureRenamed old last item := by
  cases item with
  | signature name index => exact signature_gives _ name index
  | _ => exact pure_gives fun _ => rfl

theorem fieldMember_gives (inside : String) (field : Member) :
    Gives renamer old (renamer.fieldMember inside field) fun last =>
      renamer.FieldRenamed inside old last field := by
  intro before result after underway run
  simp only [fieldMember, runs_bind, runs_text, runs_inContext, runs_pure] at run
  obtain ⟨text, before, ⟨read, rfl⟩, name, named, nameRun, descriptor, described, descriptorRun,
    attributes, _, attributesRun, rfl, rfl⟩ := run
  obtain ⟨afterName, nameGrown, nameBecomes⟩ := retarget_gives underway read nameRun
  obtain ⟨afterDescriptor, descriptorGrown, descriptorBecomes⟩ :=
    descriptorAt_gives field.descriptor _ _ _ afterName descriptorRun
  obtain ⟨done, attributesGrown, attributesBecome⟩ :=
    mapM_gives (fieldAttribute_gives text) field.attributes _ _ _ afterDescriptor attributesRun
  refine ⟨done, extends_trans nameGrown (extends_trans descriptorGrown attributesGrown), ?_⟩
  intro last grown
  have fromDescriptor := extends_trans attributesGrown grown
  refine ⟨rfl, ?_, descriptorBecomes last fromDescriptor, attributesBecome last grown⟩
  intro stood present
  rw [underway.text present read]
  exact nameBecomes last (extends_trans descriptorGrown fromDescriptor)

theorem localName_of_mem {ordinal position : Nat} {name : String}
    (marked : '\u2603' ∈ name.toList) :
    localName ordinal position name = s!"local{ordinal}_{position}" := by
  simp [localName, obfuscationMark, marked]

theorem localName_of_not_mem {ordinal position : Nat} {name : String}
    (unmarked : '\u2603' ∉ name.toList) : localName ordinal position name = name := by
  simp [localName, obfuscationMark, unmarked]

theorem localVariable_gives (method : String) (ordinal : Nat) (item : Local × Nat) :
    Gives renamer old (renamer.localVariable method ordinal item) fun last =>
      renamer.LocalRenamed old last ordinal item := by
  intro before result after underway run
  obtain ⟨entry, position⟩ := item
  simp only [localVariable, runs_bind, runs_text, runs_inContext, runs_pure] at run
  obtain ⟨text, before, ⟨read, rfl⟩, name, named, nameRun, type, _, typeRun, rfl, rfl⟩ := run
  obtain ⟨afterName, nameGrown, nameBecomes⟩ := retarget_gives underway read nameRun
  obtain ⟨done, typeGrown, typeBecomes⟩ := descriptorAt_gives entry.type _ _ _ afterName typeRun
  refine ⟨done, extends_trans nameGrown typeGrown, ?_⟩
  intro last grown
  have named := nameBecomes last (extends_trans typeGrown grown)
  refine ⟨rfl, ?_, ?_, typeBecomes last grown⟩
  · intro stood present marked
    rw [underway.text present read] at marked
    rw [named, localName_of_mem marked]
  · intro stood present unmarked
    rw [underway.text present read] at unmarked ⊢
    rw [named, localName_of_not_mem unmarked]

theorem codeAttribute_gives (method : String) (ordinal : Nat) (item : Attribute) :
    Gives renamer old (renamer.codeAttribute method ordinal item) fun last =>
      renamer.CodeAttributeRenamed old last ordinal item := by
  cases item with
  | localVariables name table =>
      intro before result after underway run
      simp only [codeAttribute, runs_bind, runs_pure] at run
      obtain ⟨locals, _, localsRun, rfl, rfl⟩ := run
      obtain ⟨done, grown, becomes⟩ :=
        mapM_gives (localVariable_gives method ordinal) _ _ _ _ underway localsRun
      exact ⟨done, grown, fun last further => ⟨locals, rfl, becomes last further⟩⟩
  | _ => exact pure_gives fun _ => rfl

theorem mem_of_forall₂ {Related : Item → Other → Prop} {items : List Item} {results : List Other}
    (related : List.Forall₂ Related items results) {result : Other} (member : result ∈ results) :
    ∃ item ∈ items, Related item result := by
  induction related with
  | nil => cases member
  | @cons item first _ _ head _ ih =>
      rcases List.mem_cons.mp member with rfl | later
      · exact ⟨item, List.mem_cons_self, head⟩
      · obtain ⟨other, inside, found⟩ := ih later
        exact ⟨other, List.mem_cons_of_mem item inside, found⟩

theorem CodeAttributeRenamed.kind {new : Pool} {ordinal : Nat} {item result : Attribute}
    (renamed : renamer.CodeAttributeRenamed old new ordinal item result) :
    result.kind = item.kind := by
  cases item with
  | localVariables name table =>
      obtain ⟨locals, rfl, -⟩ := renamed
      rfl
  | _ =>
      cases renamed
      rfl

theorem methodAttribute_gives (method : String) (ordinal : Nat) (item : Attribute) :
    Gives renamer old (renamer.methodAttribute method ordinal item) fun last =>
      renamer.MethodAttributeRenamed old last ordinal item := by
  cases item with
  | code name maxStack maxLocals body handlers attributes =>
      intro before result after underway run
      simp only [methodAttribute, runs_bind, runs_pure] at run
      obtain ⟨results, _, resultsRun, rfl, rfl⟩ := run
      obtain ⟨done, grown, becomes⟩ :=
        mapM_gives (codeAttribute_gives method ordinal) _ _ _ _ underway resultsRun
      refine ⟨done, grown, ?_⟩
      intro last further
      refine ⟨results, rfl, ?_, becomes last further⟩
      -- attributes keep their kinds, and those of generic types were left out before
      intro result member
      obtain ⟨item, kept, renamed⟩ := mem_of_forall₂ (becomes last further) member
      rw [CodeAttributeRenamed.kind renamed]
      simpa [keepsInCode] using (List.mem_filter.mp kept).2
  | signature name index => exact signature_gives _ name index
  | _ => exact pure_gives fun _ => rfl

theorem methodMember_gives (inside : String) (item : Member × Nat) :
    Gives renamer old (renamer.methodMember inside item) fun last =>
      renamer.MethodRenamed inside old last item := by
  intro before result after underway run
  obtain ⟨method, ordinal⟩ := item
  simp only [methodMember, runs_bind, runs_text, runs_pure] at run
  obtain ⟨text, before, ⟨nameRead, rfl⟩, type, before, ⟨typeRead, rfl⟩, name, named, nameRun,
    descriptor, described, descriptorRun, attributes, _, attributesRun, rfl, rfl⟩ := run
  obtain ⟨afterName, nameGrown, nameBecomes⟩ := retarget_gives underway nameRead nameRun
  obtain ⟨afterDescriptor, descriptorGrown, descriptorBecomes⟩ :=
    retarget_gives afterName (nameGrown.text typeRead) descriptorRun
  obtain ⟨done, attributesGrown, attributesBecome⟩ :=
    mapM_gives (methodAttribute_gives (text ++ type) ordinal) method.attributes _ _ _
      afterDescriptor attributesRun
  refine ⟨done, extends_trans nameGrown (extends_trans descriptorGrown attributesGrown), ?_⟩
  intro last grown
  have fromDescriptor := extends_trans attributesGrown grown
  refine ⟨rfl, ?_, ?_, attributesBecome last grown⟩
  · intro oldName oldType nameStood typeStood
    rw [underway.text nameStood nameRead, underway.text typeStood typeRead]
    exact nameBecomes last (extends_trans descriptorGrown fromDescriptor)
  · intro oldType typeStood
    rw [underway.text typeStood typeRead]
    exact descriptorBecomes last fromDescriptor

end Edits

end Renamer

end Deobfuscation
