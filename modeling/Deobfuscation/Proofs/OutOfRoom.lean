import Deobfuscation.Proofs.LegibleConstants

/-!
Why renaming can fail. If everything that it reads in a class file is there, the only failure left
is that the pool has no room for another constant. After the constants, attributes, fields and
methods are read from a pool that only grows.
-/

namespace Deobfuscation

open Edit Pool

namespace Renamer

variable {renamer : Renamer} {inside : String} {index : UInt16}

/-- Once the constants are renamed, the edit fails only for lack of room, and they stay so. -/
def Safe {Item : Type} (renamer : Renamer) (old : Pool) (edit : Edit Item) : Prop :=
  ∀ before, Underway renamer old before → OnlyFull edit before ∧
    ∀ item after, Runs edit before item after → Underway renamer old after

section Safety

variable {old : Pool} {Item Other : Type}

theorem Safe.bind {edit : Edit Item} {next : Item → Edit Other} (first : Safe renamer old edit)
    (others : ∀ item, Safe renamer old (next item)) : Safe renamer old (edit >>= next) := by
  intro before underway
  obtain ⟨only, stays⟩ := first before underway
  constructor
  · apply only.bind
    intro item middle run
    exact (others item middle (stays item middle run)).1
  · intro result after run
    obtain ⟨item, middle, firstRun, nextRun⟩ := runs_bind.mp run
    exact (others item middle (stays item middle firstRun)).2 result after nextRun

theorem Safe.inContext {edit : Edit Item} (safe : Safe renamer old edit) (context : Context) :
    Safe renamer old (inContext context edit) := by
  intro before underway
  obtain ⟨only, stays⟩ := safe before underway
  exact ⟨only.inContext context, fun item after run => stays item after (runs_inContext.mp run)⟩

/-- An edit that always ends well and leaves the pool alone. -/
theorem safe_of_runs {edit : Edit Item}
    (ends : ∀ before, Underway renamer old before → ∃ item, Runs edit before item before) :
    Safe renamer old edit := by
  intro before underway
  obtain ⟨item, run⟩ := ends before underway
  refine ⟨onlyFull_of_runs run, ?_⟩
  intro other after otherRun
  obtain ⟨rfl, rfl⟩ := run.unique otherRun
  exact underway

theorem safe_pure (item : Item) : Safe renamer old (pure item) :=
  safe_of_runs fun _ _ => ⟨item, runs_pure.mpr ⟨rfl, rfl⟩⟩

theorem safe_get : Safe renamer old get :=
  safe_of_runs fun before _ => ⟨before, runs_get.mpr ⟨rfl, rfl⟩⟩

theorem safe_text (readable : old.Readable index) : Safe renamer old (text index) := by
  obtain ⟨text, read⟩ := readable
  refine safe_of_runs fun before underway => ⟨text, runs_text.mpr ⟨?_, rfl⟩⟩
  exact underway.renamed.texts.text read

theorem safe_className (reads : ∃ text, old.className index = .ok text) :
    Safe renamer old (Edit.className index) := by
  obtain ⟨text, read⟩ := reads
  refine safe_of_runs fun before underway =>
    ⟨renamer.className text, runs_className.mpr ⟨?_, rfl⟩⟩
  exact underway.renamed.className read

theorem safe_note (notice : Notice) : Safe renamer old (note notice) := by
  intro before underway
  constructor
  · have run : Runs (note notice) before () _ := runs_note.mpr rfl
    exact onlyFull_of_runs run
  · intro item after run
    rw [runs_note.mp run]
    exact underway.grow (underway.sound.with_notices _) (extends_refl _)

theorem safe_internText (text : String) : Safe renamer old (internText text) := by
  intro before underway
  refine ⟨internText_onlyFull text underway.sound.fits, ?_⟩
  intro item after run
  obtain ⟨sound, extended, -⟩ := internText_sound underway.sound run
  exact underway.grow sound extended

theorem safe_retarget (index : UInt16) (before after : String) :
    Safe renamer old (retarget index before after) := by
  unfold retarget
  split
  · exact safe_pure index
  · exact safe_internText after

theorem safe_mapM {edit : Item → Edit Other} {items : List Item}
    (each : ∀ item ∈ items, Safe renamer old (edit item)) :
    Safe renamer old (items.mapM edit) := by
  induction items with
  | nil =>
      rw [List.mapM_nil]
      exact safe_pure []
  | cons item rest ih =>
      rw [List.mapM_cons]
      apply (each item List.mem_cons_self).bind
      intro result
      apply (ih fun other later => each other (List.mem_cons_of_mem item later)).bind
      intro results
      exact safe_pure _

end Safety

section Declarations

variable {old : Pool} (stand : old.TextsStand)

theorem descriptorAt_safe (readable : old.Readable index) :
    Safe renamer old (renamer.descriptorAt index) :=
  (safe_text readable).bind fun _ => safe_retarget index _ _

theorem signature_safe (context : Context) (name : UInt16) (readable : old.Readable index) :
    Safe renamer old (do
      return Attribute.signature name
        (← Edit.inContext context (renamer.descriptorAt index))) :=
  ((descriptorAt_safe readable).inContext context).bind fun _ => safe_pure _

include stand in
/-- The index of the inner name may denote anything: the name is made from those of the classes. -/
theorem innerClass_safe {entry : InnerClass} (legible : old.LegibleAt (.nested entry)) :
    Safe renamer old (innerClass inside entry) := by
  unfold innerClass
  split
  · exact safe_pure entry
  · rename_i complete
    push Not at complete
    obtain ⟨outerClass, innerIsClass⟩ := legible complete.1 complete.2
    apply (safe_className (stand.className outerClass)).bind
    intro outer
    apply (safe_className (stand.className innerIsClass)).bind
    intro inner
    split
    · exact (safe_note _).bind fun _ => safe_pure entry
    · apply safe_get.bind
      intro editing
      split
      · exact (safe_retarget _ _ _).bind fun _ => safe_pure _
      · exact (safe_internText _).bind fun _ => safe_pure _

include stand in
theorem classAttribute_safe {item : Attribute}
    (legible : ∀ site ∈ item.classSites, old.LegibleAt site) :
    Safe renamer old (renamer.classAttribute inside item) := by
  cases item with
  | signature name index => exact signature_safe _ name (legible (.type index) List.mem_cons_self)
  | innerClasses name classes =>
      have each : ∀ entry ∈ classes, Safe renamer old
          (Edit.inContext (.innerClass entry) (innerClass inside entry)) := by
        intro entry member
        have here := legible (.nested entry) (List.mem_map_of_mem member)
        exact (innerClass_safe stand here).inContext _
      exact (safe_mapM each).bind fun _ => safe_pure _
  | _ => exact safe_pure _

theorem fieldAttribute_safe (field : String) {item : Attribute}
    (legible : ∀ site ∈ item.signatureSites, old.LegibleAt site) :
    Safe renamer old (renamer.fieldAttribute field item) := by
  cases item with
  | signature name index => exact signature_safe _ name (legible (.type index) List.mem_cons_self)
  | _ => exact safe_pure _

theorem fieldMember_safe {field : Member}
    (legible : ∀ site ∈ field.fieldSites, old.LegibleAt site) :
    Safe renamer old (renamer.fieldMember inside field) := by
  simp only [Member.fieldSites, List.forall_mem_cons, List.forall_mem_flatMap] at legible
  obtain ⟨nameReads, typeReads, attributes⟩ := legible
  apply (safe_text nameReads).bind
  intro text
  apply (safe_retarget _ _ _).bind
  intro name
  apply ((descriptorAt_safe typeReads).inContext _).bind
  intro descriptor
  apply (safe_mapM fun item member => fieldAttribute_safe text (attributes item member)).bind
  intro results
  exact safe_pure _

theorem localVariable_safe (method : String) (ordinal : Nat) {item : Local × Nat}
    (nameReads : old.Readable item.1.name) (typeReads : old.Readable item.1.type) :
    Safe renamer old (renamer.localVariable method ordinal item) := by
  obtain ⟨entry, position⟩ := item
  apply ((safe_text nameReads).inContext _).bind
  intro text
  apply (safe_retarget _ _ _).bind
  intro name
  exact ((descriptorAt_safe typeReads).inContext _).bind fun _ => safe_pure _

theorem codeAttribute_safe (method : String) (ordinal : Nat) {item : Attribute}
    (legible : ∀ site ∈ item.codeSites, old.LegibleAt site) :
    Safe renamer old (renamer.codeAttribute method ordinal item) := by
  cases item with
  | localVariables name table =>
      simp only [Attribute.codeSites, List.forall_mem_flatMap] at legible
      have each : ∀ item ∈ table.zipIdx, Safe renamer old
          (renamer.localVariable method ordinal item) := by
        intro item member
        have entries := legible item.1 (List.fst_mem_of_mem_zipIdx member)
        exact localVariable_safe method ordinal (entries _ List.mem_cons_self)
          (entries _ (List.mem_cons_of_mem _ List.mem_cons_self))
      exact (safe_mapM each).bind fun _ => safe_pure _
  | _ => exact safe_pure _

theorem methodAttribute_safe (method : String) (ordinal : Nat) {item : Attribute}
    (legible : ∀ site ∈ item.methodSites, old.LegibleAt site) :
    Safe renamer old (renamer.methodAttribute method ordinal item) := by
  cases item with
  | code name maxStack maxLocals body handlers attributes =>
      simp only [Attribute.methodSites, List.forall_mem_flatMap] at legible
      have each : ∀ item ∈ attributes.filter keepsInCode, Safe renamer old
          (renamer.codeAttribute method ordinal item) := fun item member =>
        codeAttribute_safe method ordinal (legible item (List.mem_filter.mp member).1)
      exact (safe_mapM each).bind fun _ => safe_pure _
  | signature name index => exact signature_safe _ name (legible (.type index) List.mem_cons_self)
  | _ => exact safe_pure _

theorem methodMember_safe {item : Member × Nat}
    (legible : ∀ site ∈ item.1.methodSites, old.LegibleAt site) :
    Safe renamer old (renamer.methodMember inside item) := by
  obtain ⟨method, ordinal⟩ := item
  simp only [Member.methodSites, List.forall_mem_cons, List.forall_mem_flatMap] at legible
  obtain ⟨⟨nameReads, typeReads⟩, -, attributes⟩ := legible
  apply (safe_text nameReads).bind
  intro text
  apply (safe_text typeReads).bind
  intro type
  apply (safe_retarget _ _ _).bind
  intro name
  apply (safe_retarget _ _ _).bind
  intro descriptor
  apply (safe_mapM fun item member =>
    methodAttribute_safe _ ordinal (attributes item member)).bind
  intro results
  exact safe_pure _

end Declarations

theorem parts_onlyFull {file : ClassFile} (fits : file.pool.Fits) (legible : file.Legible) :
    OnlyFull (renamer.parts inside file) (.ofPool file.pool) := by
  obtain ⟨constants, attributes, fields, methods⟩ := ClassFile.forall_sites_iff.mp legible.sites
  have stand := textsStand_of_legible constants
  apply (constants_onlyFull constants fits).bind
  intro _ start run
  obtain ⟨sound, renamed⟩ := constants_renamed fits run
  have rest : Safe renamer file.pool (do
      let attributes ← file.attributes.mapM (renamer.classAttribute inside)
      let fields ← file.fields.mapM (renamer.fieldMember inside)
      let methods ← file.methods.zipIdx.mapM (renamer.methodMember inside)
      return { file with attributes, fields, methods }) := by
    apply (safe_mapM fun item member => classAttribute_safe stand (attributes item member)).bind
    intro _
    apply (safe_mapM fun field member => fieldMember_safe (fields field member)).bind
    intro _
    apply (safe_mapM fun item member =>
      methodMember_safe (methods item.1 (List.fst_mem_of_mem_zipIdx member))).bind
    intro _
    exact safe_pure _
  exact (rest start ⟨sound, renamed⟩).1

/-- A class file in which everything that is read is there is renamed, unless the pool has no
index left for a constant that has to be added. -/
theorem renameClass_ok_or_full (renamer : Renamer) (file : ClassFile) (fits : file.pool.Fits)
    (legible : file.Legible) :
    (∃ result, (renamer.renameClass file).1 = .ok result) ∨
      ∃ failure, (renamer.renameClass file).1 = .error failure ∧ failure.IsFull := by
  obtain ⟨constants, -⟩ := ClassFile.forall_sites_iff.mp legible.sites
  obtain ⟨inside, read⟩ := (textsStand_of_legible constants).className legible.thisClass
  have named : file.name = .ok inside := inContext_eq_ok.mpr read
  have only : OnlyFull (renamer.parts inside file) (.ofPool file.pool) :=
    parts_onlyFull fits legible
  simp only [renameClass, named]
  rcases outcome : Edit.inContext (.renameClass inside) (renamer.parts inside file)
    (.ofPool file.pool) with ⟨failure | renamed, editing⟩
  · exact Or.inr ⟨failure, rfl, only.inContext _ failure editing outcome⟩
  · exact Or.inl ⟨_, rfl⟩

/-- What renaming does not read is broken here: bytes that are no text name a pair that no
reference has, a string and an attribute, and the inner name of a nested class is nowhere. -/
def unreadFile : ClassFile :=
  { sampleFile with
    pool := ⟨sampleFile.pool.slots ++
      #[some (.utf8 [255]), some (.nameAndType 23 6), some (.string 23)]⟩
    attributes := [.innerClasses 19 [⟨15, 2, 60000, 0⟩], .other 23 [255]] }

theorem renameClass_ok_or_full_unread :
    ¬ unreadFile.pool.Readable 23 ∧ ¬ unreadFile.pool.Readable 60000 ∧
      ((∃ result,
          ((create sampleMappings sampleHierarchy).renameClass unreadFile).1 = .ok result) ∨
        ∃ failure,
          ((create sampleMappings sampleHierarchy).renameClass unreadFile).1 = .error failure ∧
            failure.IsFull) :=
  ⟨by decide +kernel, by decide +kernel,
    renameClass_ok_or_full _ _ (by decide) ⟨by decide +kernel, by decide +kernel⟩⟩

end Renamer

end Deobfuscation
