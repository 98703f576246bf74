import Deobfuscation.Proofs.MemberCollisions

/-!
What moving methods does to names that are found from other classes. A class that moves a
method gets an entry of its own for it. A search that used to pass this class on its way to
an ancestor then ends there, and the method loses the name that it overrides. This happens
exactly if the search meets a class that moves the method before one that maps it.
-/

namespace Deobfuscation

namespace Hierarchy

section Searches

variable {First Second : Type} {hierarchy : Hierarchy}

/-- How the answers of two searches are related: if the first one has none, so has the second, and
if only the first one has an answer, the second may go on as it likes. -/
structure Leads (Related : Option First → Option Second → Prop) : Prop where
  silent : ∀ second, Related none second ↔ second = none
  loose : ∀ first second, Related (some first) none → Related (some first) second

variable {Related : Option First → Option Second → Prop} {firstOwn : String → Option First}
  {secondOwn : String → Option Second}

theorem Leads.or (leads : Leads Related) {first firstRest : Option First}
    {second secondRest : Option Second} (head : Related first second)
    (tail : Related firstRest secondRest) :
    Related (first.or firstRest) (second.or secondRest) := by
  cases first with
  | none =>
      rw [(leads.silent second).mp head]
      exact tail
  | some answer =>
      cases second with
      | none => exact leads.loose answer _ head
      | some other => exact head

theorem search_succ_or (own : String → Option First) (steps : Nat) (name : String) :
    hierarchy.search own (steps + 1) name =
      (own name).or ((hierarchy.parentsOf name).findSome? (hierarchy.search own steps)) := by
  unfold search
  cases own name <;> rfl

theorem Leads.findSome? (leads : Leads Related) {names : List String}
    (each : ∀ name ∈ names, Related (firstOwn name) (secondOwn name)) :
    Related (names.findSome? firstOwn) (names.findSome? secondOwn) := by
  induction names with
  | nil => exact (leads.silent none).mpr rfl
  | cons name rest ih =>
      have head := each name List.mem_cons_self
      have tail := ih fun other later => each other (List.mem_cons_of_mem name later)
      rw [findSome?_cons_or, findSome?_cons_or]
      exact leads.or head tail

theorem Leads.search (leads : Leads Related)
    (each : ∀ name, Related (firstOwn name) (secondOwn name)) (steps : Nat) (name : String) :
    Related (hierarchy.search firstOwn steps name) (hierarchy.search secondOwn steps name) := by
  induction steps generalizing name with
  | zero => exact (leads.silent none).mpr rfl
  | succ steps ih =>
      rw [search_succ_or, search_succ_or]
      exact leads.or (each name) (leads.findSome? fun parent _ => ih parent)

end Searches

variable {Answer : Type} {hierarchy : Hierarchy}

def first? (hierarchy : Hierarchy) (holds : String → Bool) (name : String) : Option String :=
  hierarchy.find (fun other => if holds other then some other else none) name

theorem holds_of_first? {holds : String → Bool} {name first : String}
    (found : hierarchy.first? holds name = some first) : holds first = true := by
  have leads : Leads fun one other : Option String =>
      other = one ∧ ∀ holder ∈ one, holds holder = true := by
    constructor
    · simp
    · rintro holder other ⟨same, -⟩
      cases same
  have each : ∀ other, (if holds other = true then some other else none) =
      (if holds other = true then some other else none) ∧
        ∀ holder ∈ if holds other = true then some other else none, holds holder = true := by
    intro other
    by_cases property : holds other = true <;> simp [property]
  exact (leads.search each (hierarchy.size + 1) name).2 first found

theorem find_eq_first? (hierarchy : Hierarchy) (own : String → Option Answer) (name : String) :
    hierarchy.find own name =
      (hierarchy.first? (fun other => (own other).isSome) name).bind own := by
  have leads : Leads fun (first : Option String) (answer : Option Answer) =>
      answer = first.bind own ∧ ∀ holder ∈ first, (own holder).isSome = true := by
    constructor
    · simp
    · rintro holder answer ⟨silent, answers⟩
      have present := answers holder rfl
      rw [Option.bind_some] at silent
      rw [← silent] at present
      cases present
  have each : ∀ other, own other =
      (if (own other).isSome = true then some other else none).bind own ∧
        ∀ holder ∈ if (own other).isSome = true then some other else none,
          (own holder).isSome = true := by
    intro other
    cases found : own other with
    | none => simp
    | some answer => simp [found]
  exact (leads.search each (hierarchy.size + 1) name).1

/-- The first class with a property is the first with a stronger one that it has too. -/
theorem first?_of_imp {weak strong : String → Bool}
    (weaker : ∀ name, strong name = true → weak name = true) {name first : String}
    (found : hierarchy.first? weak name = some first) (holds : strong first = true) :
    hierarchy.first? strong name = some first := by
  have leads : Leads fun (one other : Option String) =>
      (one = none → other = none) ∧ ∀ holder ∈ one, strong holder = true → other = some holder := by
    constructor
    · simp
    · rintro holder answer ⟨-, answers⟩
      refine ⟨nofun, ?_⟩
      intro other same strongly
      cases answers other same strongly
  have each : ∀ other,
      ((if weak other = true then some other else none) = none →
        (if strong other = true then some other else none) = none) ∧
      ∀ holder ∈ if weak other = true then some other else none, strong holder = true →
        (if strong other = true then some other else none) = some holder := by
    intro other
    by_cases strongly : strong other = true
    · simp [strongly, weaker other strongly]
    · cases weakly : weak other <;> simp [strongly]
  exact (leads.search each (hierarchy.size + 1) name).2 first found holds

end Hierarchy

namespace Collision

variable {mappings resolved : Mappings} {files : List ClassFile} {hierarchy : Hierarchy}
  {owner name descriptor original : String}

/-- The class declares the method without an entry for it, and maps another method onto it. -/
def moves (mappings : Mappings) (files : List ClassFile) (key : MethodKey) (owner : String) :
    Bool :=
  files.any fun file => decide (file.name = .ok owner) &&
    match mappings.get? owner, methodKeys mappings.classNames file with
    | some mapping, .ok keys =>
        !mapping.methods.contains key && decide (key ∈ keys) &&
          decide (key ∈ methodNaming.targets mapping.methods)
    | _, _ => false

theorem moves_iff {key : MethodKey} :
    moves mappings files key owner = true ↔
      ∃ file ∈ files, file.name = .ok owner ∧ ∃ mapping keys,
        mappings.get? owner = some mapping ∧ methodKeys mappings.classNames file = .ok keys ∧
        mapping.methods.get? key = none ∧ key ∈ keys ∧
        key ∈ methodNaming.targets mapping.methods := by
  simp only [moves, List.any_eq_true, Bool.and_eq_true, decide_eq_true_eq]
  refine exists_congr fun file => and_congr_right fun _ => and_congr_right fun _ => ?_
  cases mappings.get? owner with
  | none => simp
  | some mapping =>
      cases methodKeys mappings.classNames file with
      | error failure => simp
      | ok keys => simp [Table.contains, and_assoc]

theorem Cleared.file_eq (cleared : Cleared mappings files resolved) {first second : ClassFile}
    (firstInside : first ∈ files) (secondInside : second ∈ files)
    (firstNamed : first.name = .ok owner) (secondNamed : second.name = .ok owner) :
    first = second := by
  have names : (files.map ClassFile.name).Nodup := List.pairwise_map.mpr cleared.distinct
  exact List.inj_on_of_nodup_map names firstInside secondInside
    (firstNamed.trans secondNamed.symm)

theorem Cleared.moves_iff_of_mem (cleared : Cleared mappings files resolved) {file : ClassFile}
    (inside : file ∈ files) (named : file.name = .ok owner) {mapping : ClassMapping}
    (mapped : mappings.get? owner = some mapping) {keys : List MethodKey}
    (read : methodKeys mappings.classNames file = .ok keys) {key : MethodKey} :
    moves mappings files key owner = true ↔ mapping.methods.get? key = none ∧ key ∈ keys ∧
      key ∈ methodNaming.targets mapping.methods := by
  rw [moves_iff]
  constructor
  · rintro ⟨other, otherInside, otherNamed, _, _, otherMapped, otherRead, moved⟩
    obtain rfl := cleared.file_eq inside otherInside named otherNamed
    rw [mapped] at otherMapped
    rw [read] at otherRead
    cases otherMapped
    cases otherRead
    exact moved
  · intro moved
    exact ⟨file, inside, named, mapping, keys, mapped, read, moved⟩

theorem Cleared.ownMethod?_cases (cleared : Cleared mappings files resolved)
    (hierarchy : Hierarchy) (name descriptor owner : String) :
    (Renamer.create resolved hierarchy).ownMethod? name descriptor owner =
        (Renamer.create mappings hierarchy).ownMethod? name descriptor owner ∧
          moves mappings files ⟨name, descriptor⟩ owner = false ∨
      (Renamer.create mappings hierarchy).ownMethod? name descriptor owner = none ∧
        ((Renamer.create resolved hierarchy).ownMethod? name descriptor owner).isSome = true ∧
          moves mappings files ⟨name, descriptor⟩ owner = true := by
  simp only [Renamer.ownMethod?, Renamer.create, ClassMapping.method?]
  by_cases known : ∃ file ∈ files, file.name = .ok owner
  · obtain ⟨file, inside, named⟩ := known
    rcases cleared.attached inside named with
      ⟨missing, missingAfter⟩ | ⟨mapping, attached, mapped, found, attaches⟩
    · left
      refine ⟨by rw [missing, missingAfter], ?_⟩
      rw [Bool.eq_false_iff]
      intro moved
      obtain ⟨-, -, -, mapping, -, mapped, -⟩ := moves_iff.mp moved
      rw [missing] at mapped
      cases mapped
    · obtain ⟨keys, read, methods⟩ := attaches.methods
      have moved : moves mappings files ⟨name, descriptor⟩ owner = true ↔ _ :=
        cleared.moves_iff_of_mem inside named mapped read
      rw [mapped, found, Option.bind_some, Option.bind_some, methods]
      rcases Naming.settle_cases methodNaming mapping.methods keys ⟨name, descriptor⟩ with
        ⟨same, stays⟩ | ⟨present, moving⟩
      · exact Or.inl ⟨same, Bool.eq_false_iff.mpr (moved.not.mpr stays)⟩
      · exact Or.inr ⟨moving.1, present, moved.mpr moving⟩
  · left
    push Not at known
    refine ⟨by rw [get?_resolve_of_ne cleared.runs known], ?_⟩
    rw [Bool.eq_false_iff]
    intro moved
    obtain ⟨file, inside, named, -⟩ := moves_iff.mp moved
    exact known file inside named

def names (mappings : Mappings) (files : List ClassFile) (key : MethodKey) (owner : String) :
    Bool :=
  ((mappings.get? owner).bind (·.methods.get? key)).isSome || moves mappings files key owner

/-- A class has an entry afterwards exactly if it maps the method or moves it. -/
theorem Cleared.isSome_ownMethod? (cleared : Cleared mappings files resolved)
    (hierarchy : Hierarchy) (name descriptor owner : String) :
    ((Renamer.create resolved hierarchy).ownMethod? name descriptor owner).isSome =
      names mappings files ⟨name, descriptor⟩ owner := by
  rcases cleared.ownMethod?_cases hierarchy name descriptor owner with
    ⟨same, stays⟩ | ⟨-, present, moved⟩
  · rw [same, names, stays, Bool.or_false]
    rfl
  · rw [present, names, moved, Bool.or_true]

end Collision

open Collision

section Methods

variable {mappings resolved : Mappings} {files : List ClassFile} {hierarchy : Hierarchy}
  {owner name descriptor original : String}

/-- A name that is found for a method stays exactly if the first class of the search that maps or
moves the method does not move it, or moves it to that same name. -/
theorem found_method_kept_iff (cleared : Cleared mappings files resolved)
    (found : (Renamer.create mappings hierarchy).findMethod? owner name descriptor =
      some original) :
    (Renamer.create resolved hierarchy).findMethod? owner name descriptor = some original ↔
      ∃ first, hierarchy.first? (names mappings files ⟨name, descriptor⟩) owner = some first ∧
        (moves mappings files ⟨name, descriptor⟩ first = true →
          (Renamer.create resolved hierarchy).ownMethod? name descriptor first =
            some original) := by
  have entries : (fun other =>
      ((Renamer.create resolved hierarchy).ownMethod? name descriptor other).isSome) =
      names mappings files ⟨name, descriptor⟩ :=
    funext (cleared.isSome_ownMethod? hierarchy name descriptor)
  have before :=
    hierarchy.find_eq_first? ((Renamer.create mappings hierarchy).ownMethod? name descriptor) owner
  have after :=
    hierarchy.find_eq_first? ((Renamer.create resolved hierarchy).ownMethod? name descriptor) owner
  change hierarchy.find _ _ = _ at found
  change hierarchy.find _ _ = _ ↔ _
  rw [after, entries, Option.bind_eq_some_iff]
  constructor
  · rintro ⟨first, meets, answer⟩
    exact ⟨first, meets, fun _ => answer⟩
  · rintro ⟨first, meets, kept⟩
    refine ⟨first, meets, ?_⟩
    rcases cleared.ownMethod?_cases hierarchy name descriptor first with
      ⟨same, stays⟩ | ⟨-, -, moved⟩
    · -- this class maps the method, so the search before ended at it too
      have maps := Hierarchy.holds_of_first? meets
      rw [names, stays, Bool.or_false] at maps
      have earlier : hierarchy.first? (fun other =>
          ((Renamer.create mappings hierarchy).ownMethod? name descriptor other).isSome) owner =
          some first :=
        Hierarchy.first?_of_imp (fun _ mapped => Bool.or_eq_true_iff.mpr (.inl mapped)) meets maps
      rw [before, earlier] at found
      rw [same]
      exact found
    · exact kept moved

/-- The child maps another method onto the name under which it overrides a method of its parent. -/
def crossedMappings : Mappings := .ofClasses
  [{ originalName := "P", obfuscatedName := "p", methods := .ofList [(⟨"m", "()V"⟩, "run")] },
    { originalName := "C", obfuscatedName := "c", methods := .ofList [(⟨"a", "()V"⟩, "m")] }]

def crossedFile : ClassFile where
  minor := 0
  major := 52
  pool := .ofList [Renamer.textConstant "c", .className 1, Renamer.textConstant "p", .className 3,
    Renamer.textConstant "a", Renamer.textConstant "()V", Renamer.textConstant "m"]
  access := 0
  thisClass := 2
  superClass := 4
  interfaces := []
  fields := []
  methods := [⟨0, 5, 6, []⟩, ⟨0, 7, 6, []⟩]
  attributes := []

def crossedFiles : List ClassFile := [shadowParent, crossedFile]

def crossedRenamer : Renamer := programRenamer crossedMappings crossedFiles

theorem crossed_prepared : Prepared crossedMappings crossedFiles crossedRenamer :=
  prepared_of_isOk ["p", "c"] (fun name => if name = "c" then 1 else 0) (by decide +kernel)
    (by decide) (by decide +kernel) (by decide +kernel) (by decide +kernel)

/-- The parent gives the method a name, and then the child has it moved to another one. -/
theorem found_method_kept_iff_crossed :
    (Renamer.create crossedMappings crossedRenamer.hierarchy).findMethod? "c" "m" "()V" =
        some "run" ∧
      crossedRenamer.hierarchy.first? (names crossedMappings crossedFiles ⟨"m", "()V"⟩) "c" =
        some "c" ∧
      moves crossedMappings crossedFiles ⟨"m", "()V"⟩ "c" = true ∧
      crossedRenamer.findMethod? "c" "m" "()V" = some "m_1" ∧
      crossedRenamer.findMethod? "c" "m" "()V" ≠ some "run" := by
  have before : (Renamer.create crossedMappings crossedRenamer.hierarchy).findMethod?
      "c" "m" "()V" = some "run" := by decide +kernel
  have first : crossedRenamer.hierarchy.first?
      (names crossedMappings crossedFiles ⟨"m", "()V"⟩) "c" = some "c" := by decide +kernel
  have moved : moves crossedMappings crossedFiles ⟨"m", "()V"⟩ "c" = true := by decide +kernel
  refine ⟨before, first, moved, by decide +kernel, ?_⟩
  intro kept
  obtain ⟨other, found, unmoved⟩ := (found_method_kept_iff crossed_prepared.cleared before).mp kept
  rw [first] at found
  cases found
  exact absurd (unmoved moved) (by decide +kernel)

/-- A method can lose the name that it overrides: the child has no entry for it, but maps another
method onto its name, so it is moved away from the name that the parent gives it. -/
theorem found_methods_not_always_kept :
    ¬ ∀ (mappings : Mappings) (files : List ClassFile) (renamer : Renamer),
      Prepared mappings files renamer →
      ∀ file ∈ files, ∀ owner, file.name = .ok owner → ∀ method ∈ file.methods,
        ∀ name descriptor, file.pool.memberTexts? method = some (name, descriptor) →
          ∀ original, (Renamer.create mappings renamer.hierarchy).findMethod? owner name
              (Signature.map mappings.classNames descriptor) = some original →
            renamer.findMethod? owner name (Signature.map mappings.classNames descriptor) =
              some original := by
  intro kept
  have found := kept _ _ _ crossed_prepared crossedFile (List.mem_cons_of_mem _ List.mem_cons_self)
    "c" (by decide +kernel) ⟨0, 7, 6, []⟩ (List.mem_cons_of_mem _ List.mem_cons_self) "m" "()V"
    (by decide +kernel) "run" (by decide +kernel)
  have lost : crossedRenamer.findMethod? "c" "m"
      (Signature.map crossedMappings.classNames "()V") = some "m_1" := by decide +kernel
  rw [lost] at found
  exact absurd found (by decide)

end Methods

end Deobfuscation
