import Deobfuscation.ClassFile.Writer
import Deobfuscation.Proofs.ClassRenaming
import Deobfuscation.Proofs.NameSites
import Deobfuscation.Proofs.SharedReferences

/-!
Class files that renaming has nothing to do with. An index is only given up for another text, so
a class file in which every text that is read is mapped to itself comes out as it was. It does not
matter that the tables may know other indices with the same texts.
-/

namespace Deobfuscation

open Edit Pool

/-- The text at an index, if there is one, is changed to itself. -/
def TextStays (change : String → String) (pool : Pool) (index : UInt16) : Prop :=
  ∀ text, pool.text index = .ok text → change text = text

instance (change : String → String) (pool : Pool) (index : UInt16) :
    Decidable (TextStays change pool index) := inferInstanceAs (Decidable (∀ _, _ → _))

/-- If the names of a nested class and its outer class fit together, the entry has the rest. -/
def NestedStays (pool : Pool) (entry : InnerClass) : Prop :=
  entry.outer ≠ 0 → entry.inner ≠ 0 →
    ∀ outer, pool.className entry.outer = .ok outer →
      ∀ inner, pool.className entry.inner = .ok inner →
        ∀ simple, inner = outer ++ "$" ++ simple → pool.text entry.name = .ok simple

theorem nestedStays_iff {pool : Pool} {entry : InnerClass} :
    NestedStays pool entry ↔ entry.outer ≠ 0 → entry.inner ≠ 0 →
      ∀ outer, pool.className entry.outer = .ok outer →
        ∀ inner, pool.className entry.inner = .ok inner →
          ∀ simple ∈ Renamer.simpleName? outer inner, pool.text entry.name = .ok simple := by
  simp only [NestedStays, Option.mem_def, Renamer.simpleName?_eq_some_iff]

instance (pool : Pool) (entry : InnerClass) : Decidable (NestedStays pool entry) :=
  decidable_of_iff _ nestedStays_iff.symm

namespace Renamer

/-- What is read at a site has its new name already. The members of a reference are found as
renaming finds them, from the class that the new name of the owner leads back to. -/
def StaysAt (renamer : Renamer) (inside : String) (pool : Pool) : Site → Prop
  | .className index => TextStays renamer.className pool index
  | .type index => TextStays renamer.signature pool index
  | .reference kind owner pair => ∀ ownerText, pool.className owner = .ok ownerText →
      ∀ texts ∈ pool.pair? pair,
        renamer.member kind (renamer.ownerName ownerText) texts.1 (renamer.signature texts.2) =
          texts.1
  | .field index => TextStays (renamer.declaredField inside) pool index
  | .method name descriptor => ∀ nameText, pool.text name = .ok nameText →
      ∀ descriptorText, pool.text descriptor = .ok descriptorText →
        renamer.method inside nameText (renamer.signature descriptorText) = nameText
  | .localName index => ∀ text, pool.text index = .ok text → obfuscationMark ∉ text.toList
  | .generics => False
  | .nested entry => NestedStays pool entry

instance (renamer : Renamer) (inside : String) (pool : Pool) (site : Site) :
    Decidable (renamer.StaysAt inside pool site) :=
  match site with
  | .className _ | .type _ | .field _ => inferInstanceAs (Decidable (TextStays ..))
  | .reference .. | .method .. | .localName _ => inferInstanceAs (Decidable (∀ _, _ → _))
  | .generics => inferInstanceAs (Decidable False)
  | .nested _ => inferInstanceAs (Decidable (NestedStays ..))

end Renamer

namespace Edit

/-- If the edit ends well on this pool, it leaves the pool as it is and gives a good item. -/
def Leaves {Item : Type} (pool : Pool) (edit : Edit Item) (Good : Item → Prop) : Prop :=
  ∀ before item after, before.pool = pool → Runs edit before item after →
    Good item ∧ after.pool = pool

section Leaving

variable {Item Other : Type} {pool : Pool} {Good : Item → Prop} {Better : Other → Prop}

theorem Leaves.bind {edit : Edit Item} {next : Item → Edit Other} (first : Leaves pool edit Good)
    (others : ∀ item, Good item → Leaves pool (next item) Better) :
    Leaves pool (edit >>= next) Better := by
  intro before result after here run
  obtain ⟨item, middle, firstRun, nextRun⟩ := runs_bind.mp run
  obtain ⟨good, still⟩ := first before item middle here firstRun
  exact others item good middle result after still nextRun

theorem Leaves.inContext {edit : Edit Item} (leaves : Leaves pool edit Good) (context : Context) :
    Leaves pool (inContext context edit) Good := by
  intro before item after here run
  exact leaves before item after here (runs_inContext.mp run)

theorem leaves_pure {item : Item} (good : Good item) : Leaves pool (pure item) Good := by
  intro before result after here run
  obtain ⟨rfl, rfl⟩ := runs_pure.mp run
  exact ⟨good, here⟩

theorem leaves_throw {failure : Failure} : Leaves pool (throw failure) Good := by
  intro before item after _ run
  exact absurd run runs_throw

theorem leaves_get : Leaves pool get fun editing => editing.pool = pool := by
  intro before result after here run
  obtain ⟨rfl, rfl⟩ := runs_get.mp run
  exact ⟨here, here⟩

theorem leaves_note (notice : Notice) : Leaves pool (note notice) fun _ => True := by
  intro before result after here run
  rw [runs_note.mp run]
  exact ⟨trivial, here⟩

theorem leaves_constant? (index : UInt16) :
    Leaves pool (constant? index) fun found => pool.get? index = found := by
  intro before found after here run
  obtain ⟨stands, rfl⟩ := runs_constant?.mp run
  exact ⟨here ▸ stands, here⟩

theorem leaves_text (index : UInt16) :
    Leaves pool (text index) fun text => pool.text index = .ok text := by
  intro before found after here run
  obtain ⟨read, rfl⟩ := runs_text.mp run
  exact ⟨here ▸ read, here⟩

theorem leaves_className (index : UInt16) :
    Leaves pool (className index) fun text => pool.className index = .ok text := by
  intro before found after here run
  obtain ⟨read, rfl⟩ := runs_className.mp run
  exact ⟨here ▸ read, here⟩

theorem leaves_replace {index : UInt16} {constant : Constant}
    (stands : pool.get? index = some constant) :
    Leaves pool (replace index constant) fun _ => True := by
  intro before result after here run
  rw [runs_replace.mp run, here]
  exact ⟨trivial, replace_self stands⟩

theorem leaves_retarget (index : UInt16) {old new : String} (same : new = old) :
    Leaves pool (retarget index old new) fun target => target = index := by
  unfold retarget
  rw [if_pos same.symm]
  exact leaves_pure rfl

theorem leaves_mapM {edit : Item → Edit Other} {view : Item → Other} {items : List Item}
    (each : ∀ item ∈ items, Leaves pool (edit item) fun result => result = view item) :
    Leaves pool (items.mapM edit) fun results => results = items.map view := by
  induction items with
  | nil =>
      rw [List.mapM_nil]
      exact leaves_pure rfl
  | cons item rest ih =>
      rw [List.mapM_cons]
      apply (each item List.mem_cons_self).bind
      rintro result rfl
      apply (ih fun other later => each other (List.mem_cons_of_mem item later)).bind
      rintro results rfl
      exact leaves_pure rfl

theorem leaves_forIndices {step : UInt16 → Edit Unit}
    (each : ∀ index, Leaves pool (step index) fun _ => True) (stop : UInt16) :
    Leaves pool (forIndices stop step) fun _ => True := by
  unfold forIndices
  induction List.range' 1 (stop.toNat - 1) with
  | nil => exact leaves_pure trivial
  | cons index rest ih =>
      rw [List.forM_eq_forM, List.forM_cons]
      exact (each _).bind fun _ _ => ih

end Leaving

end Edit

namespace Renamer

variable {renamer : Renamer} {inside : String} {pool : Pool}

section Constants

variable (stay : ∀ constant ∈ pool.constants, ∀ site ∈ constant.sites,
  renamer.StaysAt inside pool site)

theorem descriptorAt_leaves {index : UInt16} (same : TextStays renamer.signature pool index) :
    Leaves pool (renamer.descriptorAt index) fun target => target = index :=
  (leaves_text index).bind fun text read => leaves_retarget index (same text read)

include stay

theorem classConstant_leaves (index : UInt16) :
    Leaves pool (renamer.classConstant index) fun _ => True := by
  apply (leaves_constant? index).bind
  intro found stands
  split
  · rename_i name
    apply ((leaves_text name).inContext _).bind
    intro text read
    have same := stay _ (mem_constants stands) (.className name) List.mem_cons_self text read
    apply (leaves_retarget name same).bind
    rintro target rfl
    exact leaves_replace stands
  · exact leaves_pure trivial

theorem nameAndTypeConstant_leaves (known : Bindings UInt16 (String × String)) (index : UInt16) :
    Leaves pool (renamer.nameAndTypeConstant known index) fun _ => True := by
  apply (leaves_constant? index).bind
  intro found stands
  split
  · rename_i name descriptor
    apply ((leaves_text descriptor).inContext _).bind
    intro text read
    have same := stay _ (mem_constants stands) (.type descriptor) List.mem_cons_self text read
    apply (leaves_retarget descriptor same).bind
    rintro target rfl
    rw [if_neg fun changed => changed rfl]
    exact leaves_pure trivial
  · exact leaves_pure trivial

theorem reference_leaves (fits : pool.Fits) {index : UInt16} {kind : MemberKind}
    {owner pair : UInt16} (stands : pool.get? index = some (.memberRef kind owner pair)) :
    Leaves pool (renamer.reference pool.namesAndTypes inside kind owner pair) fun target =>
      target = pair := by
  apply (leaves_className owner).bind
  intro ownerText ownerRead
  dsimp only
  rw [get?_namesAndTypes fits]
  split
  · exact leaves_throw
  · rename_i name descriptor noted
    -- neither the owner nor the descriptor has a new name, so the member is found as it is
    obtain ⟨ownerIndex, ownerStands, textRead⟩ := className_eq_ok_iff.mp ownerRead
    obtain ⟨_, descriptorIndex, pairStands, -, descriptorRead⟩ := pair?_eq_some_iff.mp noted
    have sameOwner : renamer.className ownerText = ownerText :=
      stay _ (mem_constants ownerStands) (.className ownerIndex) List.mem_cons_self _ textRead
    have sameType : renamer.signature descriptor = descriptor :=
      stay _ (mem_constants pairStands) (.type descriptorIndex) List.mem_cons_self _ descriptorRead
    have sameName := stay _ (mem_constants stands) (.reference kind owner pair) List.mem_cons_self
      ownerText ownerRead _ noted
    rw [ownerName, sameOwner] at sameName
    rw [if_pos ⟨sameName, sameType⟩]
    exact leaves_pure rfl

theorem referenceConstant_leaves (fits : pool.Fits) (index : UInt16) :
    Leaves pool (renamer.referenceConstant pool.namesAndTypes inside index) fun _ => True := by
  apply (leaves_constant? index).bind
  intro found stands
  split
  · rename_i kind owner pair
    apply ((reference_leaves stay fits stands).inContext _).bind
    rintro target rfl
    exact leaves_replace stands
  · rename_i descriptor
    have same := stay _ (mem_constants stands) (.type descriptor) List.mem_cons_self
    apply ((descriptorAt_leaves same).inContext _).bind
    rintro target rfl
    exact leaves_replace stands
  · exact leaves_pure trivial

theorem constants_leaves (fits : pool.Fits) :
    Leaves pool (renamer.constants inside) fun _ => True := by
  apply leaves_get.bind
  rintro editing rfl
  apply (leaves_forIndices (classConstant_leaves stay) _).bind
  intro _ _
  apply (leaves_forIndices (nameAndTypeConstant_leaves stay _) _).bind
  intro _ _
  exact leaves_forIndices (referenceConstant_leaves stay fits) _

end Constants

section Declarations

theorem signature_leaves (context : Context) (name : UInt16) {index : UInt16}
    (same : TextStays renamer.signature pool index) :
    Leaves pool (do
      return Attribute.signature name
        (← Edit.inContext context (renamer.descriptorAt index))) fun result =>
      result = .signature name index := by
  apply ((descriptorAt_leaves same).inContext context).bind
  rintro target rfl
  exact leaves_pure rfl

theorem innerClass_leaves {entry : InnerClass} (stays : NestedStays pool entry) :
    Leaves pool (innerClass inside entry) fun result => result = entry := by
  unfold innerClass
  split
  · exact leaves_pure rfl
  · rename_i complete
    push Not at complete
    apply (leaves_className _).bind
    intro outer outerRead
    apply (leaves_className _).bind
    intro inner innerRead
    split
    · exact (leaves_note _).bind fun _ _ => leaves_pure rfl
    · rename_i simple found
      have read := stays complete.1 complete.2 outer outerRead inner innerRead simple
        (simpleName?_eq_some_iff.mp found)
      apply leaves_get.bind
      rintro editing rfl
      rw [read]
      apply (leaves_retarget entry.name rfl).bind
      rintro target rfl
      exact leaves_pure rfl

theorem classAttribute_leaves {item : Attribute}
    (stay : ∀ site ∈ item.classSites, renamer.StaysAt inside pool site) :
    Leaves pool (renamer.classAttribute inside item) fun result => result = item := by
  cases item with
  | signature name index =>
      exact signature_leaves _ name (stay (.type index) List.mem_cons_self)
  | innerClasses name classes =>
      have each : ∀ entry ∈ classes, Leaves pool
          (Edit.inContext (.innerClass entry) (innerClass inside entry)) fun result =>
          result = id entry := by
        intro entry member
        exact (innerClass_leaves (stay (.nested entry) (List.mem_map_of_mem member))).inContext _
      apply (leaves_mapM each).bind
      rintro entries rfl
      rw [List.map_id]
      exact leaves_pure rfl
  | _ => exact leaves_pure rfl

theorem fieldAttribute_leaves (field : String) {item : Attribute}
    (stay : ∀ site ∈ item.signatureSites, renamer.StaysAt inside pool site) :
    Leaves pool (renamer.fieldAttribute field item) fun result => result = item := by
  cases item with
  | signature name index =>
      exact signature_leaves _ name (stay (.type index) List.mem_cons_self)
  | _ => exact leaves_pure rfl

theorem fieldMember_leaves {field : Member}
    (stay : ∀ site ∈ field.fieldSites, renamer.StaysAt inside pool site) :
    Leaves pool (renamer.fieldMember inside field) fun result => result = field := by
  simp only [Member.fieldSites, List.forall_mem_cons, List.forall_mem_flatMap] at stay
  obtain ⟨sameName, sameType, attributesStay⟩ := stay
  apply (leaves_text _).bind
  intro text read
  apply (leaves_retarget _ (sameName text read)).bind
  rintro name rfl
  apply ((descriptorAt_leaves sameType).inContext _).bind
  rintro descriptor rfl
  have each : ∀ item ∈ field.attributes,
      Leaves pool (renamer.fieldAttribute text item) fun result => result = id item :=
    fun item member => fieldAttribute_leaves text (attributesStay item member)
  apply (leaves_mapM each).bind
  rintro attributes rfl
  rw [List.map_id]
  exact leaves_pure rfl

theorem localVariable_leaves (method : String) (ordinal : Nat) {item : Local × Nat}
    (sameName : renamer.StaysAt inside pool (.localName item.1.name))
    (sameType : renamer.StaysAt inside pool (.type item.1.type)) :
    Leaves pool (renamer.localVariable method ordinal item) fun result => result = item.1 := by
  obtain ⟨entry, position⟩ := item
  apply ((leaves_text _).inContext _).bind
  intro text read
  apply (leaves_retarget _ (localName_of_not_mem (sameName text read))).bind
  rintro name rfl
  apply ((descriptorAt_leaves sameType).inContext _).bind
  rintro type rfl
  exact leaves_pure rfl

theorem codeAttribute_leaves (method : String) (ordinal : Nat) {item : Attribute}
    (stay : ∀ site ∈ item.codeSites, renamer.StaysAt inside pool site) :
    Leaves pool (renamer.codeAttribute method ordinal item) fun result => result = item := by
  cases item with
  | localVariables name table =>
      simp only [Attribute.codeSites, List.forall_mem_flatMap] at stay
      have each : ∀ item ∈ table.zipIdx, Leaves pool
          (renamer.localVariable method ordinal item) fun result => result = item.1 := by
        intro item member
        have entries := stay item.1 (List.fst_mem_of_mem_zipIdx member)
        exact localVariable_leaves method ordinal (entries _ List.mem_cons_self)
          (entries _ (List.mem_cons_of_mem _ List.mem_cons_self))
      apply (leaves_mapM each).bind
      rintro locals rfl
      rw [List.zipIdx_map_fst]
      exact leaves_pure rfl
  | _ => exact leaves_pure rfl

theorem methodAttribute_leaves (method : String) (ordinal : Nat) {item : Attribute}
    (stay : ∀ site ∈ item.methodSites, renamer.StaysAt inside pool site) :
    Leaves pool (renamer.methodAttribute method ordinal item) fun result => result = item := by
  cases item with
  | code name maxStack maxLocals body handlers attributes =>
      simp only [Attribute.methodSites, List.forall_mem_flatMap] at stay
      have kept : attributes.filter keepsInCode = attributes := by
        rw [List.filter_eq_self]
        intro item member
        cases item with
        | localVariableTypes name table => exact (stay _ member .generics List.mem_cons_self).elim
        | _ => rfl
      have each : ∀ item ∈ attributes.filter keepsInCode, Leaves pool
          (renamer.codeAttribute method ordinal item) fun result => result = id item :=
        fun item member =>
          codeAttribute_leaves method ordinal (stay item (List.mem_filter.mp member).1)
      apply (leaves_mapM each).bind
      rintro results rfl
      rw [List.map_id, kept]
      exact leaves_pure rfl
  | signature name index =>
      exact signature_leaves _ name (stay (.type index) List.mem_cons_self)
  | _ => exact leaves_pure rfl

theorem methodMember_leaves {item : Member × Nat}
    (stay : ∀ site ∈ item.1.methodSites, renamer.StaysAt inside pool site) :
    Leaves pool (renamer.methodMember inside item) fun result => result = item.1 := by
  obtain ⟨method, ordinal⟩ := item
  simp only [Member.methodSites, List.forall_mem_cons, List.forall_mem_flatMap] at stay
  obtain ⟨sameName, sameType, attributesStay⟩ := stay
  apply (leaves_text _).bind
  intro text read
  apply (leaves_text _).bind
  intro type typeRead
  apply (leaves_retarget _ (sameName text read type typeRead)).bind
  rintro name rfl
  apply (leaves_retarget _ (sameType type typeRead)).bind
  rintro descriptor rfl
  have each : ∀ item ∈ method.attributes, Leaves pool
      (renamer.methodAttribute (text ++ type) ordinal item) fun result => result = id item :=
    fun item member => methodAttribute_leaves _ ordinal (attributesStay item member)
  apply (leaves_mapM each).bind
  rintro attributes rfl
  rw [List.map_id]
  exact leaves_pure rfl

theorem parts_leaves {file : ClassFile} (fits : file.pool.Fits)
    (stay : ∀ site ∈ file.sites, renamer.StaysAt inside file.pool site) :
    Leaves file.pool (renamer.parts inside file) fun result => result = file := by
  obtain ⟨constants, attributes, fields, methods⟩ := ClassFile.forall_sites_iff.mp stay
  apply (constants_leaves constants fits).bind
  intro _ _
  have eachAttribute : ∀ item ∈ file.attributes, Leaves file.pool
      (renamer.classAttribute inside item) fun result => result = id item :=
    fun item member => classAttribute_leaves (attributes item member)
  apply (leaves_mapM eachAttribute).bind
  rintro _ rfl
  have eachField : ∀ field ∈ file.fields, Leaves file.pool
      (renamer.fieldMember inside field) fun result => result = id field :=
    fun field member => fieldMember_leaves (fields field member)
  apply (leaves_mapM eachField).bind
  rintro _ rfl
  have eachMethod : ∀ item ∈ file.methods.zipIdx, Leaves file.pool
      (renamer.methodMember inside item) fun result => result = item.1 :=
    fun item member =>
      methodMember_leaves (methods item.1 (List.fst_mem_of_mem_zipIdx member))
  apply (leaves_mapM eachMethod).bind
  rintro _ rfl
  rw [List.map_id, List.map_id, List.zipIdx_map_fst]
  exact leaves_pure rfl

end Declarations

/-- A class file stays the same, byte by byte, if every text that renaming reads in it is mapped
to itself and no table of generic types is dropped. -/
theorem renameClass_untouched (renamer : Renamer) (file result : ClassFile) (inside : String)
    (fits : file.pool.Fits) (named : file.name = .ok inside)
    (stay : ∀ site ∈ file.sites, renamer.StaysAt inside file.pool site)
    (run : (renamer.renameClass file).1 = .ok result) :
    result = file ∧ result.bytes = file.bytes := by
  obtain ⟨_, renamed, last, alsoNamed, whole, rfl⟩ := renameClass_cases run
  rw [named] at alsoNamed
  cases alsoNamed
  obtain ⟨rfl, samePool⟩ := parts_leaves fits stay _ renamed last rfl whole
  have same : { renamed with pool := last.pool } = renamed := by rw [samePool]
  exact ⟨same, congrArg ClassFile.bytes same⟩

/-- The class is mapped to its own name, and so is its field. -/
def ownMappings : Mappings := .ofClasses
  [{ originalName := "c", obfuscatedName := "c", fields := .ofList [("a", "a")] },
    { originalName := "q/Z", obfuscatedName := "z", methods := .ofList [(⟨"m", "()V"⟩, "run")] }]

/-- Texts and a name with a type stand twice in the pool. The tables know the last ones, and the
first ones are used. -/
def repeatingFile : ClassFile where
  minor := 0
  major := 52
  pool := .ofList
    [textConstant "c", .className 1, textConstant "a", textConstant "I", .nameAndType 3 4,
      .memberRef .field 2 5, textConstant "a", textConstant "I", .nameAndType 7 8,
      textConstant "m", textConstant "()V", textConstant "c$d", .className 12, textConstant "d",
      textConstant "d", textConstant "Code", textConstant "LocalVariableTable",
      textConstant "InnerClasses", textConstant "v"]
  access := 0
  thisClass := 2
  superClass := 0
  interfaces := []
  fields := [⟨0, 3, 4, []⟩]
  methods := [⟨0, 10, 11, [.code 16 1 1 [177] [] [.localVariables 17 [⟨0, 1, 19, 4, 0⟩]]]⟩]
  attributes := [.innerClasses 18 [⟨13, 2, 14, 0⟩]]

theorem renameClass_untouched_repeating : ∃ result,
    ((create ownMappings {}).renameClass repeatingFile).1 = .ok result ∧
      result = repeatingFile ∧ result.bytes = repeatingFile.bytes := by
  have run := eq_ok_of_isOk repeatingFile
    (show ((create ownMappings {}).renameClass repeatingFile).1.isOk = true by decide +kernel)
  exact ⟨_, run, renameClass_untouched (create ownMappings {}) repeatingFile _ "c" (by decide)
    (by decide +kernel) (by decide +kernel) run⟩

end Renamer

end Deobfuscation
