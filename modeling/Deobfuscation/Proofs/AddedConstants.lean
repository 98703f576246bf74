import Deobfuscation.Proofs.ClassRenaming
import Deobfuscation.Proofs.SharedReferences

/-!
What renaming adds to a pool. Texts and pairs are added once, and references to the same new pair
share it. But the second pass does not leave every pair filed that stands in the pool, and such a
pair is added once more when a reference asks for it; this is exactly when a pair is repeated.
-/

namespace Deobfuscation

open Edit Pool

/-- What is in the new pool behind the old end was added once, and references share it. -/
structure Pool.AddsOnce (old new : Pool) : Prop where
  readable : ∀ added bytes, old.nextIndex ≤ added → new.get? added = some (.utf8 bytes) →
    ∃ text, new.text added = .ok text
  texts : ∀ added other text, old.nextIndex ≤ added → old.nextIndex ≤ other →
    new.text added = .ok text → new.text other = .ok text → other = added
  newTexts : ∀ added place text, old.nextIndex ≤ added → new.text added = .ok text →
    old.text place ≠ .ok text
  readablePairs : ∀ added name descriptor, old.nextIndex ≤ added →
    new.get? added = some (.nameAndType name descriptor) → ∃ pair, new.pair? added = some pair
  pairs : ∀ added other pair, old.nextIndex ≤ added → old.nextIndex ≤ other →
    new.pair? added = some pair → new.pair? other = some pair → other = added
  references : ∀ first second firstBefore secondBefore firstAfter secondAfter,
    old.pairIndex? first = some firstBefore → old.pairIndex? second = some secondBefore →
    new.pairIndex? first = some firstAfter → new.pairIndex? second = some secondAfter →
    old.pair? firstBefore ≠ new.pair? firstAfter →
    old.pair? secondBefore ≠ new.pair? secondAfter →
    new.pair? firstAfter = new.pair? secondAfter → firstAfter = secondAfter

namespace Renamer

section Results

variable {renamer : Renamer} {file result : ClassFile}

theorem renameClass_shares (fits : file.pool.Fits)
    (run : (renamer.renameClass file).1 = .ok result) :
    ∃ filed last,
      Filing renamer file.pool.namesAndTypes file.pool.nextIndex.toNat filed ∧
      Sharing renamer file.pool filed file.pool.nextIndex.toNat last ∧
      result.pool = last.pool := by
  obtain ⟨inside, renamed, last, -, whole, rfl⟩ := renameClass_cases run
  obtain ⟨middle, constantsRun, rest⟩ := parts_cases whole
  simp only [constants, runs_bind, runs_get] at constantsRun
  obtain ⟨_, _, ⟨rfl, rfl⟩, _, first, firstRun, _, second, secondRun, thirdRun⟩ := constantsRun
  have positive : 0 < file.pool.nextIndex.toNat := by
    rw [toNat_nextIndex fits]
    omega
  -- descriptors do not change in the first pass, so it stays at the first index
  have classes : Ready renamer file.pool 1 first :=
    @forIndices_upTo (fun _ => Ready renamer file.pool 1) _ _ _ _
      (fun _ _ _ _ _ ready => ready.classConstant) positive (ready_ofPool renamer fits) firstRun
  have descriptors : Ready renamer file.pool file.pool.nextIndex.toNat second :=
    forIndices_upTo (fun _ _ _ _ below ready =>
      ready.nameAndTypeConstant (UInt16.lt_iff_toNat_lt.mpr below)) positive classes secondRun
  have references := forIndices_upTo
    (fun _ _ _ _ _ sharing => Sharing.referenceConstant fits sharing) positive
    descriptors.sharing thirdRun
  have adds := rest lasting_adds references.settled.sound
  exact ⟨second.interner.pairs, last, descriptors.filing, references.of_samePairs adds.samePairs,
    rfl⟩

section Views

variable {old : Pool} {filed : Bindings (String × String) UInt16} {last : Editing}

theorem Sharing.filed_of_added {next : Nat} (sharing : Sharing renamer old filed next last)
    {added : UInt16} {pair : String × String} (behind : old.nextIndex ≤ added)
    (stands : last.pool.pair? added = some pair) :
    last.interner.pairs.get? pair = some added := by
  obtain ⟨name, descriptor, there, -⟩ := pair?_eq_some_iff.mp stands
  obtain ⟨known, here⟩ := sharing.appended added name descriptor behind there
  have same := sharing.settled.sound.pairs _ _ here
  rw [stands] at same
  cases same
  exact here

theorem Sharing.filed_of_changed (fits : old.Fits)
    (sharing : Sharing renamer old filed old.nextIndex.toNat last) {index before target : UInt16}
    (stood : old.pairIndex? index = some before) (now : last.pool.pairIndex? index = some target)
    (changed : old.pair? before ≠ last.pool.pair? target) :
    ∃ pair, last.pool.pair? target = some pair ∧
      last.interner.pairs.get? pair = some target := by
  obtain ⟨kind, owner, there⟩ := pairIndex?_eq_some_iff.mp stood
  have visited := (mem_indicesBelow.mp (mem_indicesBelow_nextIndex fits there)).2
  obtain ⟨pair, result, place, noted, here, standing, answer⟩ :=
    sharing.answered index visited before stood
  rw [here] at now
  cases now
  rcases answer with ⟨rfl, -⟩ | ⟨-, known⟩
  · rw [noted, standing] at changed
    exact absurd rfl changed
  · exact ⟨result, standing, known⟩

theorem Filing.inside (fits : old.Fits)
    (filing : Filing renamer old.namesAndTypes old.nextIndex.toNat filed) {name descriptor : String}
    {place : UInt16} (known : filed.get? (name, descriptor) = some place) :
    place < old.nextIndex ∧ ∃ type, old.pair? place = some (name, type) ∧
      renamer.signature type = descriptor := by
  obtain ⟨⟨oldName, type⟩, noted, same⟩ := Option.map_eq_some_iff.mp (filing.stands _ _ known)
  rw [get?_namesAndTypes fits] at noted
  obtain ⟨_, _, there, -⟩ := pair?_eq_some_iff.mp noted
  have visited := (mem_indicesBelow.mp (mem_indicesBelow_nextIndex fits there)).2
  rw [if_pos visited] at same
  cases same
  exact ⟨UInt16.lt_iff_toNat_lt.mpr visited, type, noted, rfl⟩

end Views

end Results

/-- New constants are added once. Every text that is added can be read and stands neither in the
old pool nor at another index that was added; every pair that is added can be read and stands at
no other such index. References that got another pair, and the same one, share its index. -/
theorem renameClass_adds_once (renamer : Renamer) (file result : ClassFile)
    (fits : file.pool.Fits) (run : (renamer.renameClass file).1 = .ok result) :
    file.pool.AddsOnce result.pool := by
  obtain ⟨filed, last, -, sharing, same⟩ := renameClass_shares fits run
  rw [same]
  have texts : file.pool.KeepsTexts last.pool :=
    same ▸ (renameClass_renamed fits (name_of_renameClass run).choose_spec run).1.texts
  constructor
  · exact sharing.once.readable
  · intro added other text behind _ reads otherReads
    exact sharing.once.once added other text behind reads otherReads
  · intro added place text behind reads stood
    obtain ⟨bytes, there, -⟩ := text_eq_ok_iff.mp stood
    cases sharing.once.once added place text behind reads (texts.text stood)
    rw [get?_of_nextIndex_le fits behind] at there
    cases there
  · intro added name descriptor behind stands
    obtain ⟨pair, known⟩ := sharing.appended added name descriptor behind stands
    exact ⟨pair, sharing.settled.sound.pairs _ _ known⟩
  · intro added other pair behind otherBehind stands otherStands
    have known := sharing.filed_of_added behind stands
    rw [sharing.filed_of_added otherBehind otherStands] at known
    exact Option.some.inj known
  · intro first second firstBefore secondBefore firstAfter secondAfter firstStood secondStood
      firstNow secondNow firstChanged secondChanged equal
    obtain ⟨pair, firstStands, firstKnown⟩ :=
      sharing.filed_of_changed fits firstStood firstNow firstChanged
    obtain ⟨other, secondStands, secondKnown⟩ :=
      sharing.filed_of_changed fits secondStood secondNow secondChanged
    rw [firstStands, secondStands] at equal
    cases equal
    rw [firstKnown] at secondKnown
    exact Option.some.inj secondKnown

def twiceFile : ClassFile :=
  { sampleFile with pool := ⟨sampleFile.pool.slots.push (some (.memberRef .field 2 7))⟩ }

theorem renameClass_adds_once_twice : ∃ result,
    ((create sampleMappings sampleHierarchy).renameClass twiceFile).1 = .ok result ∧
      twiceFile.pool.AddsOnce result.pool ∧
      (result.pool.pairIndex? 8).isSome ∧
      result.pool.pairIndex? 8 = result.pool.pairIndex? 23 := by
  have run := eq_ok_of_isOk twiceFile
    (show ((create sampleMappings sampleHierarchy).renameClass twiceFile).1.isOk = true by
      decide +kernel)
  exact ⟨_, run, renameClass_adds_once _ _ _ (by decide) run, by decide +kernel,
    by decide +kernel⟩

/-- Wherever a pair comes to stand when descriptors change, an index behind it had this pair
before. -/
def Overtaken (renamer : Renamer) (old : Pool) (name descriptor : String) : Prop :=
  ∀ place type, old.pair? place = some (name, type) → renamer.signature type = descriptor →
    ∃ later, place < later ∧ old.pair? later = some (name, descriptor)

theorem Filing.overtaken_iff {renamer : Renamer} {old : Pool} (fits : old.Fits)
    {filed : Bindings (String × String) UInt16}
    (filing : Filing renamer old.namesAndTypes old.nextIndex.toNat filed)
    (name descriptor : String) :
    filed.get? (name, descriptor) = none ↔ Overtaken renamer old name descriptor := by
  constructor
  · intro missing place type noted changed
    apply Classical.byContradiction
    intro nothing
    have none : NoneBehind old.namesAndTypes (name, descriptor) place := by
      intro other otherNoted
      rw [get?_namesAndTypes fits] at otherNoted
      exact UInt16.not_lt.mp fun larger => nothing ⟨other, larger, otherNoted⟩
    obtain ⟨_, _, there, -⟩ := pair?_eq_some_iff.mp noted
    have visited := (mem_indicesBelow.mp (mem_indicesBelow_nextIndex fits there)).2
    obtain ⟨taken, known⟩ := filing.complete (name, descriptor) place
      (by simp [pairAt, get?_namesAndTypes fits, noted, visited, changed]) none
    rw [missing] at known
    cases known
  · intro overtaken
    cases known : filed.get? (name, descriptor) with
    | none => rfl
    | some place =>
        obtain ⟨-, type, noted, changed⟩ := filing.inside fits known
        obtain ⟨later, larger, laterNoted⟩ := overtaken place type noted changed
        rw [← get?_namesAndTypes fits] at laterNoted
        exact absurd larger (UInt16.not_lt.mpr (filing.behind _ _ known later laterNoted))

/-- A pair is added although it stands in the pool exactly if a reference asks for a pair that
stands there but was overtaken. -/
theorem renameClass_repeats_iff (renamer : Renamer) (file result : ClassFile)
    (fits : file.pool.Fits) (run : (renamer.renameClass file).1 = .ok result) :
    (∃ added place pair, file.pool.nextIndex ≤ added ∧ place < file.pool.nextIndex ∧
        result.pool.pair? added = some pair ∧ result.pool.pair? place = some pair) ↔
      ∃ name descriptor,
        (∃ index target, file.pool.RefersAnew result.pool (name, descriptor) target index ∧
          result.pool.pair? target = some (name, descriptor)) ∧
        (∃ place, place < file.pool.nextIndex ∧
          result.pool.pair? place = some (name, descriptor)) ∧
        Overtaken renamer file.pool name descriptor := by
  obtain ⟨filed, last, filing, sharing, same⟩ := renameClass_shares fits run
  rw [same]
  constructor
  · rintro ⟨added, place, ⟨name, descriptor⟩, behind, inside, stands, standsToo⟩
    have known := sharing.filed_of_added behind stands
    have notLeft : filed.get? (name, descriptor) ≠ some added := by
      intro left
      exact absurd (filing.inside fits left).1 (UInt16.not_lt.mpr behind)
    rcases sharing.asked _ _ known with left | ⟨-, index, -, anew⟩
    · exact absurd left notLeft
    · refine ⟨name, descriptor, ⟨index, added, anew, stands⟩, ⟨place, inside, standsToo⟩,
        (filing.overtaken_iff fits name descriptor).mp ?_⟩
      cases left : filed.get? (name, descriptor) with
      | none => rfl
      | some other =>
          have kept := sharing.kept _ _ left
          rw [known] at kept
          cases kept
          exact absurd left notLeft
  · rintro ⟨name, descriptor, ⟨index, target, ⟨now, before, stood, changed⟩, stands⟩,
      ⟨place, inside, standsToo⟩, overtaken⟩
    obtain ⟨pair, targetStands, known⟩ :=
      sharing.filed_of_changed fits stood now (stands.symm ▸ changed)
    rw [stands] at targetStands
    cases targetStands
    rcases sharing.asked _ _ known with left | ⟨behind, -⟩
    · rw [(filing.overtaken_iff fits name descriptor).mpr overtaken] at left
      cases left
    · exact ⟨target, place, (name, descriptor), behind, inside, stands, standsToo⟩

def swappedMappings : Mappings := .ofClasses
  [{ originalName := "b", obfuscatedName := "a" }, { originalName := "a", obfuscatedName := "b" }]

/-- Two fields of one name have these classes as types, and the first one is referred to. -/
def swappedFile : ClassFile where
  minor := 0
  major := 52
  pool := .ofList
    [textConstant "x", .className 1, textConstant "f", textConstant "La;", textConstant "Lb;",
      .nameAndType 3 4, .nameAndType 3 5, .memberRef .field 2 6]
  access := 0
  thisClass := 2
  superClass := 0
  interfaces := []
  fields := []
  methods := []
  attributes := []

theorem renameClass_repeats_iff_swapped : ∃ result name descriptor,
    ((create swappedMappings {}).renameClass swappedFile).1 = .ok result ∧
      (∃ index target, swappedFile.pool.RefersAnew result.pool (name, descriptor) target index ∧
        result.pool.pair? target = some (name, descriptor)) ∧
      (create swappedMappings {}).Overtaken swappedFile.pool name descriptor := by
  have run := eq_ok_of_isOk swappedFile
    (show ((create swappedMappings {}).renameClass swappedFile).1.isOk = true by decide +kernel)
  obtain ⟨name, descriptor, asked, -, overtaken⟩ :=
    (renameClass_repeats_iff _ _ _ (by decide) run).mp
      ⟨9, 6, ("f", "Lb;"), by decide +kernel, by decide +kernel, by decide +kernel,
        by decide +kernel⟩
  exact ⟨_, name, descriptor, run, asked, overtaken⟩

theorem pairs_not_always_reused : ¬ ∀ (renamer : Renamer) (file result : ClassFile),
    file.pool.Fits → (renamer.renameClass file).1 = .ok result →
    ∀ added place pair, file.pool.nextIndex ≤ added → place < file.pool.nextIndex →
      result.pool.pair? added = some pair → result.pool.pair? place ≠ some pair := by
  intro reused
  have run := eq_ok_of_isOk swappedFile
    (show ((create swappedMappings {}).renameClass swappedFile).1.isOk = true by decide +kernel)
  exact reused _ _ _ (by decide) run 9 6 ("f", "Lb;") (by decide +kernel) (by decide +kernel)
    (by decide +kernel) (by decide +kernel)

end Renamer

end Deobfuscation
