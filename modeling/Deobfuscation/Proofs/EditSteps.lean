import Deobfuscation.Proofs.InternTables
import Deobfuscation.Renaming.Class

/-!
What the steps of renaming can do. A pass over the pool changes the constant at an index in one
way, which is said here once; what such a step keeps is derived from that. Everything after the
passes only looks up texts, adds them and takes notes, so a relation between states that lasts
over these lasts over all of it.
-/

namespace Deobfuscation

open Edit

namespace Interner

/-- The pair at an index has another descriptor now. It is filed only if its texts are known. -/
def told (interner : Interner) (known : Bindings UInt16 (String × String)) (index : UInt16)
    (old new : String) : Interner :=
  match known.get? index with
  | some (name, _) => interner.moved index name old new
  | none => interner

theorem texts_told (interner : Interner) (known : Bindings UInt16 (String × String))
    (index : UInt16) (old new : String) :
    (interner.told known index old new).texts = interner.texts := by
  unfold told
  split <;> rfl

end Interner

namespace Renamer

section Passes

variable {renamer : Renamer} {known : Bindings UInt16 (String × String)} {inside : String}
  {index : UInt16} {before after : Editing}

theorem classConstant_cases (run : Runs (renamer.classConstant index) before () after) :
    (∀ name, before.pool.get? index ≠ some (.className name)) ∧ after = before ∨
      ∃ name text target grown, before.pool.get? index = some (.className name) ∧
        before.pool.text name = .ok text ∧
        Runs (retarget name text (renamer.className text)) before target grown ∧
        after = { grown with pool := grown.pool.replace index (.className target) } := by
  simp only [classConstant, runs_bind, runs_constant?] at run
  obtain ⟨found, _, ⟨stands, rfl⟩, run⟩ := run
  split at run
  · rename_i name
    simp only [runs_bind, runs_inContext, runs_text, runs_replace] at run
    obtain ⟨text, _, ⟨read, rfl⟩, target, grown, retargeted, rfl⟩ := run
    exact Or.inr ⟨name, text, target, grown, stands, read, retargeted, rfl⟩
  · rename_i other
    obtain ⟨-, rfl⟩ := runs_pure.mp run
    exact Or.inl ⟨fun name here => other name (stands.symm.trans here), rfl⟩

theorem nameAndTypeConstant_cases
    (run : Runs (renamer.nameAndTypeConstant known index) before () after) :
    (∀ name descriptor, before.pool.get? index ≠ some (.nameAndType name descriptor)) ∧
        after = before ∨
      ∃ name descriptor text target grown,
        before.pool.get? index = some (.nameAndType name descriptor) ∧
        before.pool.text descriptor = .ok text ∧
        Runs (retarget descriptor text (renamer.signature text)) before target grown ∧
        (target = descriptor ∧ after = grown ∨
          target ≠ descriptor ∧ after = { grown with
            pool := grown.pool.replace index (.nameAndType name target)
            interner := grown.interner.told known index text (renamer.signature text) }) := by
  simp only [nameAndTypeConstant, runs_bind, runs_constant?] at run
  obtain ⟨found, before, ⟨stands, rfl⟩, run⟩ := run
  split at run
  · rename_i name descriptor
    simp only [runs_bind, runs_inContext, runs_text] at run
    obtain ⟨text, before, ⟨read, rfl⟩, target, grown, retargeted, run⟩ := run
    refine Or.inr ⟨name, descriptor, text, target, grown, stands, read, retargeted, ?_⟩
    split at run
    · rename_i changed
      refine Or.inr ⟨changed, ?_⟩
      split at run
      · rename_i nameText old noted
        simp only [runs_bind, runs_modify, runs_replace] at run
        obtain ⟨_, _, rfl, rfl⟩ := run
        simp only [Interner.told, noted]
      · rename_i unknown
        obtain rfl := runs_replace.mp run
        simp only [Interner.told, unknown]
    · rename_i unchanged
      obtain ⟨-, rfl⟩ := runs_pure.mp run
      exact Or.inl ⟨Decidable.of_not_not unchanged, rfl⟩
  · rename_i other
    obtain ⟨-, rfl⟩ := runs_pure.mp run
    exact Or.inl ⟨fun name descriptor here => other name descriptor (stands.symm.trans here), rfl⟩

/-- A reference asks for the pair of its new name and descriptor, unless it has this pair. -/
theorem reference_cases {kind : MemberKind} {owner pair target : UInt16}
    (run : Runs (renamer.reference known inside kind owner pair) before target after) :
    ∃ ownerText name descriptor newName newDescriptor,
      before.pool.className owner = .ok ownerText ∧
      known.get? pair = some (name, descriptor) ∧
      newDescriptor = renamer.signature descriptor ∧
      newName = renamer.member kind (renamer.obfuscatedName ownerText) name newDescriptor ∧
      ((newName, newDescriptor) = (name, descriptor) ∧ target = pair ∧ after = before ∨
        (newName, newDescriptor) ≠ (name, descriptor) ∧
          ∃ notices, Runs (internPair newName newDescriptor) { before with notices } target
            after) := by
  simp only [reference, runs_bind, runs_className] at run
  obtain ⟨ownerText, before, ⟨ownerRead, rfl⟩, run⟩ := run
  split at run
  · exact absurd run runs_throw
  · rename_i name descriptor noted
    refine ⟨ownerText, name, descriptor, _, _, ownerRead, noted, rfl, rfl, ?_⟩
    rw [Ne, Prod.mk.injEq]
    split at run
    · rename_i unchanged
      obtain ⟨rfl, rfl⟩ := runs_pure.mp run
      exact Or.inl ⟨unchanged, rfl, rfl⟩
    · rename_i changed
      simp only [runs_bind, runs_note] at run
      obtain ⟨_, _, rfl, interned⟩ := run
      exact Or.inr ⟨changed, _, interned⟩

theorem referenceConstant_cases
    (run : Runs (renamer.referenceConstant known inside index) before () after) :
    (∀ kind owner pair, before.pool.get? index ≠ some (.memberRef kind owner pair)) ∧
        (∀ descriptor, before.pool.get? index ≠ some (.methodType descriptor)) ∧
        after = before ∨
      (∃ kind owner pair target grown,
        before.pool.get? index = some (.memberRef kind owner pair) ∧
        Runs (renamer.reference known inside kind owner pair) before target grown ∧
        after = { grown with
          pool := grown.pool.replace index (.memberRef kind owner target) }) ∨
      ∃ descriptor target grown, before.pool.get? index = some (.methodType descriptor) ∧
        Runs (renamer.descriptorAt descriptor) before target grown ∧
        after = { grown with pool := grown.pool.replace index (.methodType target) } := by
  simp only [referenceConstant, runs_bind, runs_constant?] at run
  obtain ⟨found, before, ⟨stands, rfl⟩, run⟩ := run
  split at run
  · rename_i kind owner pair
    simp only [runs_bind, runs_inContext, runs_replace] at run
    obtain ⟨target, grown, referenced, rfl⟩ := run
    exact Or.inr (Or.inl ⟨kind, owner, pair, target, grown, stands, referenced, rfl⟩)
  · rename_i descriptor
    simp only [runs_bind, runs_inContext, runs_replace] at run
    obtain ⟨target, grown, described, rfl⟩ := run
    exact Or.inr (Or.inr ⟨descriptor, target, grown, stands, described, rfl⟩)
  · rename_i noReference noMethodType
    obtain ⟨-, rfl⟩ := runs_pure.mp run
    exact Or.inl ⟨fun kind owner pair here => noReference kind owner pair (stands.symm.trans here),
      fun descriptor here => noMethodType descriptor (stands.symm.trans here), rfl⟩

theorem descriptorAt_cases {target : UInt16}
    (run : Runs (renamer.descriptorAt index) before target after) :
    ∃ text, before.pool.text index = .ok text ∧
      Runs (retarget index text (renamer.signature text)) before target after := by
  simp only [descriptorAt, runs_bind, runs_text] at run
  obtain ⟨text, before, ⟨read, rfl⟩, retargeted⟩ := run
  exact ⟨text, read, retargeted⟩

end Passes

end Renamer

namespace Edit

/-- However the edit runs, the states before and after it are related. -/
def Within {Item : Type} (Related : Editing → Editing → Prop) (edit : Edit Item) : Prop :=
  ∀ before item after, Runs edit before item after → Related before after

theorem Within.inContext {Item : Type} {Related : Editing → Editing → Prop} {edit : Edit Item}
    (within : Within Related edit) (context : Context) :
    Within Related (inContext context edit) := by
  intro before item after run
  exact within before item after (runs_inContext.mp run)

/-- A relation between states that lasts as long as texts are looked up or added and notes are
taken. -/
structure Lasting (Related : Editing → Editing → Prop) : Prop where
  refl : ∀ editing, Related editing editing
  trans : ∀ {first second third}, Related first second → Related second third →
    Related first third
  noted : ∀ notice, Within Related (note notice)
  interned : ∀ text, Within Related (internText text)

namespace Lasting

variable {Related : Editing → Editing → Prop} {Item Other : Type}

variable (lasting : Lasting Related)

include lasting

protected theorem bind {edit : Edit Item} {next : Item → Edit Other} (first : Within Related edit)
    (others : ∀ item, Within Related (next item)) : Within Related (edit >>= next) := by
  intro before result after run
  obtain ⟨item, middle, firstRun, nextRun⟩ := runs_bind.mp run
  exact lasting.trans (first _ _ _ firstRun) (others item _ _ _ nextRun)

protected theorem pure (item : Item) : Within Related (pure item) := by
  intro before result after run
  rw [(runs_pure.mp run).2]
  exact lasting.refl before

protected theorem get : Within Related get := by
  intro before result after run
  rw [(runs_get.mp run).2]
  exact lasting.refl before

protected theorem text (index : UInt16) : Within Related (text index) := by
  intro before result after run
  rw [(runs_text.mp run).2]
  exact lasting.refl before

protected theorem className (index : UInt16) : Within Related (className index) := by
  intro before result after run
  rw [(runs_className.mp run).2]
  exact lasting.refl before

protected theorem retarget (index : UInt16) (old new : String) :
    Within Related (retarget index old new) := by
  unfold Edit.retarget
  split
  · exact lasting.pure index
  · exact lasting.interned new

protected theorem mapM {edit : Item → Edit Other} (each : ∀ item, Within Related (edit item))
    (items : List Item) : Within Related (items.mapM edit) := by
  induction items with
  | nil =>
      rw [List.mapM_nil]
      exact lasting.pure []
  | cons item rest ih =>
      rw [List.mapM_cons]
      apply lasting.bind (each item)
      intro first
      exact lasting.bind ih fun others => lasting.pure _

protected theorem forIndices {step : UInt16 → Edit Unit}
    (each : ∀ index, Within Related (step index)) (stop : UInt16) :
    Within Related (forIndices stop step) := by
  unfold Edit.forIndices
  induction List.range' 1 (stop.toNat - 1) with
  | nil => exact lasting.pure _
  | cons index rest ih =>
      rw [List.forM_eq_forM, List.forM_cons]
      exact lasting.bind (each _) fun _ => ih

end Lasting

end Edit

namespace Renamer

section Declarations

variable {Related : Editing → Editing → Prop} {renamer : Renamer} {inside : String}
  {file result : ClassFile} {before after : Editing}

section Lasting

variable (lasting : Lasting Related)

include lasting

theorem descriptorAt_within (index : UInt16) : Within Related (renamer.descriptorAt index) :=
  lasting.bind (lasting.text index) fun text => lasting.retarget index text _

theorem innerClass_within (entry : InnerClass) : Within Related (innerClass inside entry) := by
  unfold innerClass
  split
  · exact lasting.pure entry
  · apply lasting.bind (lasting.className _)
    intro outer
    apply lasting.bind (lasting.className _)
    intro inner
    split
    · exact lasting.bind (lasting.noted _) fun _ => lasting.pure entry
    · apply lasting.bind lasting.get
      intro editing
      split
      · exact lasting.bind (lasting.retarget _ _ _) fun _ => lasting.pure _
      · exact lasting.bind (lasting.interned _) fun _ => lasting.pure _

theorem signature_within (context : Context) (name index : UInt16) :
    Within Related (do
      return Attribute.signature name
        (← Edit.inContext context (renamer.descriptorAt index))) :=
  lasting.bind ((descriptorAt_within lasting index).inContext context) fun _ => lasting.pure _

theorem classAttribute_within (item : Attribute) :
    Within Related (renamer.classAttribute inside item) := by
  cases item with
  | signature name index => exact signature_within lasting _ name index
  | innerClasses name classes =>
      apply lasting.bind (lasting.mapM _ classes) fun _ => lasting.pure _
      intro entry
      exact (innerClass_within lasting entry).inContext _
  | _ => exact lasting.pure _

theorem fieldAttribute_within (field : String) (item : Attribute) :
    Within Related (renamer.fieldAttribute field item) := by
  cases item with
  | signature name index => exact signature_within lasting _ name index
  | _ => exact lasting.pure _

theorem fieldMember_within (field : Member) :
    Within Related (renamer.fieldMember inside field) := by
  apply lasting.bind (lasting.text _)
  intro text
  apply lasting.bind (lasting.retarget _ _ _)
  intro name
  apply lasting.bind ((descriptorAt_within lasting _).inContext _)
  intro descriptor
  exact lasting.bind (lasting.mapM (fieldAttribute_within lasting text) _) fun _ =>
    lasting.pure _

theorem localVariable_within (method : String) (ordinal : Nat) (item : Local × Nat) :
    Within Related (renamer.localVariable method ordinal item) := by
  obtain ⟨entry, position⟩ := item
  apply lasting.bind ((lasting.text _).inContext _)
  intro text
  apply lasting.bind (lasting.retarget _ _ _)
  intro name
  exact lasting.bind ((descriptorAt_within lasting _).inContext _) fun _ => lasting.pure _

theorem codeAttribute_within (method : String) (ordinal : Nat) (item : Attribute) :
    Within Related (renamer.codeAttribute method ordinal item) := by
  cases item with
  | localVariables name table =>
      exact lasting.bind (lasting.mapM (localVariable_within lasting method ordinal) _) fun _ =>
        lasting.pure _
  | _ => exact lasting.pure _

theorem methodAttribute_within (method : String) (ordinal : Nat) (item : Attribute) :
    Within Related (renamer.methodAttribute method ordinal item) := by
  cases item with
  | code name maxStack maxLocals body handlers attributes =>
      exact lasting.bind (lasting.mapM (codeAttribute_within lasting method ordinal) _) fun _ =>
        lasting.pure _
  | signature name index => exact signature_within lasting _ name index
  | _ => exact lasting.pure _

theorem methodMember_within (item : Member × Nat) :
    Within Related (renamer.methodMember inside item) := by
  obtain ⟨method, ordinal⟩ := item
  apply lasting.bind (lasting.text _)
  intro text
  apply lasting.bind (lasting.text _)
  intro type
  apply lasting.bind (lasting.retarget _ _ _)
  intro name
  apply lasting.bind (lasting.retarget _ _ _)
  intro descriptor
  exact lasting.bind (lasting.mapM (methodAttribute_within lasting _ ordinal) _) fun _ =>
    lasting.pure _

end Lasting

/-- Renaming a class file renames its constants; what lasts is kept from there on. -/
theorem parts_cases (run : Runs (renamer.parts inside file) before result after) :
    ∃ middle, Runs (renamer.constants inside) before () middle ∧
      ∀ {Related : Editing → Editing → Prop}, Lasting Related → Related middle after := by
  simp only [parts, runs_bind, runs_pure] at run
  obtain ⟨_, middle, constantsRun, attributes, first, attributesRun, fields, second, fieldsRun,
    methods, _, methodsRun, rfl, rfl⟩ := run
  refine ⟨middle, constantsRun, ?_⟩
  intro Related lasting
  have overAttributes := lasting.mapM (classAttribute_within lasting) _ _ _ _ attributesRun
  have overFields := lasting.mapM (fieldMember_within lasting) _ _ _ _ fieldsRun
  have overMethods := lasting.mapM (methodMember_within lasting) _ _ _ _ methodsRun
  exact lasting.trans overAttributes (lasting.trans overFields overMethods)

theorem renameClass_cases (run : (renamer.renameClass file).1 = .ok result) :
    ∃ inside renamed last, file.name = .ok inside ∧
      Runs (renamer.parts inside file) (.ofPool file.pool) renamed last ∧
      result = { renamed with pool := last.pool } := by
  unfold renameClass at run
  split at run
  · cases run
  · rename_i inside named
    split at run
    · rename_i renamed last ended
      cases run
      exact ⟨inside, renamed, last, named, runs_inContext.mp ended, rfl⟩
    · cases run

end Declarations

end Renamer

end Deobfuscation
