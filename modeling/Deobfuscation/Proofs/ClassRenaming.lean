import Deobfuscation.Proofs.DeclarationRenaming

/-!
Renaming a class file is exact. If it succeeds, every constant and every declaration has the
name that the mappings give it, all names being read from the class file as it was.
-/

namespace Deobfuscation

open Edit Pool

namespace Renamer

variable {renamer : Renamer}

theorem renameClass_renamed {file result : ClassFile} {inside : String} (fits : file.pool.Fits)
    (named : file.name = .ok inside) (run : (renamer.renameClass file).1 = .ok result) :
    renamer.PoolRenamed file.pool result.pool ∧
      renamer.DeclarationsRenamed inside file result := by
  obtain ⟨_, renamed, last, alsoNamed, whole, rfl⟩ := renameClass_cases run
  rw [named] at alsoNamed
  cases alsoNamed
  simp only [parts, runs_bind, runs_pure] at whole
  obtain ⟨_, start, constantsRun, attributes, first, attributesRun, fields, second, fieldsRun,
    methods, _, methodsRun, rfl, rfl⟩ := whole
  -- the later parts only add constants, so what the earlier ones gave stays right
  obtain ⟨sound, renamed⟩ := constants_renamed fits constantsRun
  obtain ⟨afterAttributes, -, attributesBecome⟩ :=
    mapM_gives (classAttribute_gives inside) _ _ _ _ ⟨sound, renamed⟩ attributesRun
  obtain ⟨afterFields, fieldsGrown, fieldsBecome⟩ :=
    mapM_gives (fieldMember_gives inside) _ _ _ _ afterAttributes fieldsRun
  obtain ⟨done, methodsGrown, methodsBecome⟩ :=
    mapM_gives (methodMember_gives inside) _ _ _ _ afterFields methodsRun
  exact ⟨done.renamed, rfl, attributesBecome _ (extends_trans fieldsGrown methodsGrown),
    fieldsBecome _ methodsGrown, methodsBecome _ (extends_refl _)⟩

theorem name_of_renameClass {file result : ClassFile}
    (run : (renamer.renameClass file).1 = .ok result) : ∃ inside, file.name = .ok inside := by
  obtain ⟨inside, _, _, named, -⟩ := renameClass_cases run
  exact ⟨inside, named⟩

section Sample

def textConstant (text : String) : Constant := .utf8 (Text.ModifiedUtf8.encode text)

def sampleMappings : Mappings := .ofClasses
  [{ originalName := "q/C", obfuscatedName := "c", fields := .ofList [("a", "count")] },
    { originalName := "q/P", obfuscatedName := "p", methods := .ofList [(⟨"m", "()V"⟩, "run")] },
    { originalName := "q/C$D", obfuscatedName := "c$d" }]

def sampleHierarchy : Hierarchy := Hierarchy.insert {} "c" ["p"]

def sampleFile : ClassFile where
  minor := 0
  major := 52
  pool := .ofList
    [textConstant "c", .className 1, textConstant "p", .className 3,
      textConstant "a", textConstant "Lc;", .nameAndType 5 6, .memberRef .field 2 7,
      textConstant "m", textConstant "()V", .nameAndType 9 10, .memberRef .method 2 11,
      .methodType 10, textConstant "c$d", .className 14, textConstant "d", textConstant "☃",
      textConstant "Signature", textConstant "InnerClasses", textConstant "Code",
      textConstant "LocalVariableTable", textConstant "LocalVariableTypeTable"]
  access := 0
  thisClass := 2
  superClass := 4
  interfaces := []
  fields := [⟨0, 5, 6, [.signature 18 6]⟩]
  methods := [⟨0, 9, 10, [.code 20 1 1 [177] []
    [.localVariables 21 [⟨0, 1, 17, 6, 0⟩], .localVariableTypes 22 [⟨0, 1, 17, 6, 0⟩]]]⟩]
  attributes := [.innerClasses 19 [⟨15, 2, 16, 0⟩]]

theorem renameClass_sample : ∃ result,
    ((create sampleMappings sampleHierarchy).renameClass sampleFile).1 = .ok result :=
  ⟨_, eq_ok_of_isOk sampleFile (by decide +kernel)⟩

end Sample

/-- Every constant of a renamed class file is what the mappings make of it. The owner of a member
reference is looked up by going back from its new name, which leads to the class itself unless
classes share a name. -/
theorem renameClass_constants (mappings : Mappings) (hierarchy : Hierarchy)
    (file result : ClassFile) (fits : file.pool.Fits)
    (run : ((create mappings hierarchy).renameClass file).1 = .ok result) :
    (create mappings hierarchy).PoolRenamed file.pool result.pool ∧
      ∀ owner,
        (create mappings hierarchy).ownerName owner =
          (mappings.inverseClassNames.get? ((create mappings hierarchy).className owner)).getD
            ((create mappings hierarchy).className owner) ∧
        (owner.toList.head? ≠ some '[' → mappings.Unambiguous owner →
          (create mappings hierarchy).ownerName owner = owner) := by
  obtain ⟨inside, named⟩ := name_of_renameClass run
  refine ⟨(renameClass_renamed fits named run).1, ?_⟩
  intro owner
  exact ⟨rfl, fun plain unambiguous => ownerName_eq hierarchy plain unambiguous⟩

section Exchange

/-- Two classes that take each other's names. -/
def exchangeMappings : Mappings := .ofClasses
  [{ originalName := "b", obfuscatedName := "a", fields := .ofList [("f", "g")] },
    { originalName := "a", obfuscatedName := "b", methods := .ofList [(⟨"m", "(Lb;)V"⟩, "n")] }]

def exchangeHierarchy : Hierarchy := Hierarchy.insert {} "a" ["b"]

def exchangeFile : ClassFile where
  minor := 0
  major := 52
  pool := .ofList
    [textConstant "a", .className 1, textConstant "[La;", .className 3, textConstant "f",
      textConstant "La;", .nameAndType 5 6, .memberRef .field 2 7, textConstant "m",
      textConstant "(La;)V", .nameAndType 9 10, .memberRef .interfaceMethod 2 11, .methodType 10]
  access := 0
  thisClass := 2
  superClass := 0
  interfaces := []
  fields := []
  methods := []
  attributes := []

/-- No text is mapped twice, which would bring the old names back. The method is found in the parent
under its new descriptor. -/
theorem renameClass_constants_exchange : ∃ result,
    ((create exchangeMappings exchangeHierarchy).renameClass exchangeFile).1 = .ok result ∧
      (create exchangeMappings exchangeHierarchy).ownerName "a" = "a" ∧
      result.pool.className 2 = .ok "b" ∧
      result.pool.className 4 = .ok "[Lb;" ∧
      result.pool.pair? 7 = some ("f", "Lb;") ∧
      (∃ pair, result.pool.get? 8 = some (.memberRef .field 2 pair) ∧
        result.pool.pair? pair = some ("g", "Lb;")) ∧
      (∃ pair, result.pool.get? 12 = some (.memberRef .interfaceMethod 2 pair) ∧
        result.pool.pair? pair = some ("n", "(Lb;)V")) ∧
      ∃ descriptor, result.pool.get? 13 = some (.methodType descriptor) ∧
        result.pool.text descriptor = .ok "(Lb;)V" := by
  have run := eq_ok_of_isOk exchangeFile
    (show ((create exchangeMappings exchangeHierarchy).renameClass exchangeFile).1.isOk = true by
      decide +kernel)
  obtain ⟨renamed, owners⟩ := renameClass_constants exchangeMappings exchangeHierarchy exchangeFile
    _ (by decide) run
  have owner : (create exchangeMappings exchangeHierarchy).ownerName "a" = "a" :=
    (owners "a").2 (by decide) (by decide +kernel)
  obtain ⟨_, pairStands, pairTarget, rfl, pairText⟩ := renamed 7 (.nameAndType 5 6) (by decide)
  obtain ⟨_, fieldStands, fieldPair, rfl, field⟩ := renamed 8 (.memberRef .field 2 7) (by decide)
  obtain ⟨_, methodStands, methodPair, rfl, method⟩ :=
    renamed 12 (.memberRef .interfaceMethod 2 11) (by decide)
  obtain ⟨_, typeStands, typeTarget, rfl, typeText⟩ := renamed 13 (.methodType 10) (by decide)
  have first : (create exchangeMappings exchangeHierarchy).className "a" = "b" := by decide +kernel
  have array : (create exchangeMappings exchangeHierarchy).className "[La;" = "[Lb;" := by
    decide +kernel
  have fieldType : (create exchangeMappings exchangeHierarchy).signature "La;" = "Lb;" := by
    decide +kernel
  have methodType : (create exchangeMappings exchangeHierarchy).signature "(La;)V" = "(Lb;)V" := by
    decide +kernel
  have fieldName : (create exchangeMappings exchangeHierarchy).field "a" "f" = "g" := by
    decide +kernel
  have methodName : (create exchangeMappings exchangeHierarchy).method "a" "m" "(Lb;)V" = "n" := by
    decide +kernel
  refine ⟨_, run, owner, ?_, ?_, ?_, ⟨fieldPair, fieldStands, ?_⟩, ⟨methodPair, methodStands, ?_⟩,
    typeTarget, typeStands, ?_⟩
  · rw [← first]
    exact renamed.className (by decide +kernel)
  · rw [← array]
    exact renamed.className (by decide +kernel)
  · have name := renamed.texts.text (by decide +kernel : exchangeFile.pool.text 5 = .ok "f")
    rw [← fieldType]
    have descriptor := pairText "La;" (by decide +kernel)
    exact pair?_eq_some_iff.mpr ⟨5, pairTarget, pairStands, name, descriptor⟩
  · have pair := field.field rfl "a" "f" "La;" (by decide +kernel) (by decide +kernel)
    rwa [owner, fieldName, fieldType] at pair
  · have pair := method.method nofun "a" "m" "(La;)V" (by decide +kernel) (by decide +kernel)
    rwa [owner, methodType, methodName] at pair
  · rw [typeText "(La;)V" (by decide +kernel), methodType]

end Exchange

/-- Everything that a renamed class file declares is what the mappings make of it, position by
position. -/
theorem renameClass_declarations (mappings : Mappings) (hierarchy : Hierarchy)
    (file result : ClassFile) (inside : String) (fits : file.pool.Fits)
    (named : file.name = .ok inside)
    (run : ((create mappings hierarchy).renameClass file).1 = .ok result) :
    (create mappings hierarchy).DeclarationsRenamed inside file result :=
  (renameClass_renamed fits named run).2

theorem eq_singleton_of_forall₂ {Item Other : Type} {Related : Item → Other → Prop} {item : Item}
    {results : List Other} (related : List.Forall₂ Related [item] results) :
    ∃ result, results = [result] ∧ Related item result := by
  cases related with
  | cons head tail =>
      cases tail
      exact ⟨_, rfl, head⟩

/-- The field is mapped by its class and the method by the parent, and the local variable has
the mark. -/
theorem renameClass_declarations_sample : ∃ result,
    ((create sampleMappings sampleHierarchy).renameClass sampleFile).1 = .ok result ∧
      (∃ name descriptor generic,
        result.fields = [⟨0, name, descriptor, [.signature 18 generic]⟩] ∧
        result.pool.text name = .ok "count" ∧ result.pool.text descriptor = .ok "Lq/C;" ∧
        result.pool.text generic = .ok "Lq/C;") ∧
      (∃ name descriptor localName localType,
        result.methods = [⟨0, name, descriptor, [.code 20 1 1 [177] []
          [.localVariables 21 [⟨0, 1, localName, localType, 0⟩]]]⟩] ∧
        result.pool.text name = .ok "run" ∧ result.pool.text descriptor = .ok "()V" ∧
        result.pool.text localName = .ok "local0_0" ∧
        result.pool.text localType = .ok "Lq/C;") ∧
      ∃ simple, result.attributes = [.innerClasses 19 [⟨15, 2, simple, 0⟩]] ∧
        result.pool.text simple = .ok "D" := by
  obtain ⟨result, run⟩ := renameClass_sample
  have declared := renameClass_declarations sampleMappings sampleHierarchy sampleFile result
    "c" (by decide) (by decide +kernel) run
  have type : (create sampleMappings sampleHierarchy).signature "Lc;" = "Lq/C;" := by
    decide +kernel
  have read : sampleFile.pool.text 6 = .ok "Lc;" := by decide +kernel
  refine ⟨result, run, ?_, ?_, ?_⟩
  · obtain ⟨⟨access, name, descriptor, attributes⟩, fields, field⟩ :=
      eq_singleton_of_forall₂ declared.fields
    obtain ⟨_, rfl, generic, rfl, genericText⟩ := eq_singleton_of_forall₂ field.attributes
    obtain rfl := field.access
    refine ⟨name, descriptor, generic, fields, ?_, ?_, ?_⟩
    · exact field.name "a" (by decide +kernel)
    · rw [← type]
      exact field.descriptor "Lc;" read
    · rw [← type]
      exact genericText "Lc;" read
  · obtain ⟨⟨access, name, descriptor, attributes⟩, methods, method⟩ :=
      eq_singleton_of_forall₂ declared.methods
    obtain ⟨_, rfl, _, rfl, -, code⟩ := eq_singleton_of_forall₂ method.attributes
    obtain ⟨_, rfl, _, rfl, locals⟩ := eq_singleton_of_forall₂ code
    obtain ⟨⟨_, _, localName, localType, _⟩, rfl, renamed⟩ := eq_singleton_of_forall₂ locals
    obtain rfl := method.access
    cases renamed.frame
    have same : (create sampleMappings sampleHierarchy).signature "()V" = "()V" := by
      decide +kernel
    refine ⟨name, descriptor, localName, localType, methods, ?_, ?_, ?_, ?_⟩
    · exact method.name "m" "()V" (by decide +kernel) (by decide +kernel)
    · rw [← same]
      exact method.descriptor "()V" (by decide +kernel)
    · exact renamed.marked "☃" (by decide +kernel) (by decide)
    · rw [← type]
      exact renamed.type "Lc;" read
  · obtain ⟨_, attributes, _, rfl, classes⟩ := eq_singleton_of_forall₂ declared.attributes
    obtain ⟨⟨_, _, simple, _⟩, rfl, entry⟩ := eq_singleton_of_forall₂ classes
    cases entry.frame
    refine ⟨simple, attributes, ?_⟩
    exact entry.nested (by decide) (by decide) "c" "c$d" "D" (by decide +kernel)
      (by decide +kernel) (by decide +kernel)

end Renamer

end Deobfuscation
