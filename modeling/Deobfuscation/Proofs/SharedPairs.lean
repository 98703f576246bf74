import Deobfuscation.Proofs.PairFiling

/-!
What becomes of pairs while a pool is edited. Some steps leave all pairs, the references to them
and their table as they are; looking up a pair adds this one at most. The first two passes over a
pool add no pairs at all, and what they leave filed is known exactly.
-/

namespace Deobfuscation

open Edit Pool

/-- Texts, pairs of them, and references to pairs. -/
def Constant.isShared : Constant → Bool
  | .utf8 _ | .nameAndType .. | .memberRef .. => true
  | _ => false

theorem Constant.isShared_of_isFiled {constant : Constant} (filed : constant.isFiled = true) :
    constant.isShared = true := by
  cases constant with
  | utf8 bytes => rfl
  | nameAndType name descriptor => rfl
  | _ => cases filed

theorem Pool.size_replace (pool : Pool) (index : UInt16) (constant : Constant) :
    (pool.replace index constant).slots.size = pool.slots.size := by
  unfold replace
  split
  · exact Array.size_setIfInBounds
  · rfl

/-- Texts may be added, but pairs, references to them and where pairs are filed stay the same. -/
structure Editing.SamePairs (before after : Editing) : Prop where
  sound : after.Sound
  kept : before.pool.Keeps Constant.isShared after.pool
  back : after.pool.Keeps (fun constant => constant.isShared && constant.isNoText) before.pool
  size : before.pool.slots.size ≤ after.pool.slots.size
  pairs : after.interner.pairs = before.interner.pairs
  once : ∀ start, before.TextsOnce start → after.TextsOnce start

/-- A pair was looked up or added: it is filed at an index, and all else is as before. -/
structure Editing.FilesPair (before after : Editing) (pair : String × String) (index : UInt16) :
    Prop where
  sound : after.Sound
  extended : before.pool.Extends after.pool
  others : ∀ place constant, constant.isNoText = true → after.pool.get? place = some constant →
    before.pool.get? place = some constant ∨
      place = index ∧ ∃ name descriptor, constant = .nameAndType name descriptor
  size : before.pool.slots.size ≤ after.pool.slots.size
  filed : ∀ wanted, after.interner.pairs.get? wanted =
    if pair = wanted then some index else before.interner.pairs.get? wanted
  origin : before.interner.pairs.get? pair = some index ∨
    before.interner.pairs.get? pair = none ∧ before.pool.slots.size < index.toNat
  once : ∀ start, before.TextsOnce start → after.TextsOnce start

section Steps

variable {before after : Editing} {index : UInt16}

theorem Editing.AddsTexts.samePairs (adds : before.AddsTexts after) : before.SamePairs after where
  sound := adds.sound
  kept := adds.extended.keeps _
  back := adds.others.weaken fun _ both => (Bool.and_eq_true_iff.mp both).2
  size := adds.size
  pairs := adds.pairs
  once := adds.once

theorem Editing.SamePairs.filed (same : before.SamePairs after) :
    before.pool.Keeps Constant.isFiled after.pool :=
  same.kept.weaken fun _ => Constant.isShared_of_isFiled

theorem Editing.SamePairs.texts (same : before.SamePairs after) :
    before.pool.KeepsTexts after.pool := same.kept.texts fun _ => rfl

theorem Editing.SamePairs.pair? (same : before.SamePairs after) {pair : String × String}
    (stands : before.pool.pair? index = some pair) : after.pool.pair? index = some pair :=
  same.texts.pair? same.kept (fun _ _ => rfl) stands

theorem Editing.SamePairs.memberRef_iff (same : before.SamePairs after) {kind : MemberKind}
    {owner pair : UInt16} : after.pool.get? index = some (.memberRef kind owner pair) ↔
      before.pool.get? index = some (.memberRef kind owner pair) :=
  ⟨same.back index _ rfl, same.kept index _ rfl⟩

theorem Editing.AddsTexts.samePairs_replace (adds : before.AddsTexts after)
    {constant : Constant} (stands : before.pool.get? index = some constant)
    (unshared : constant.isShared = false) (result : Constant)
    (resultUnshared : result.isShared = false) :
    before.SamePairs { after with pool := after.pool.replace index result } := by
  have present := adds.extended index constant rfl stands
  have kept := keeps_replace Constant.isShared present unshared result
  have filed : after.pool.Keeps Constant.isFiled (after.pool.replace index result) :=
    kept.weaken fun _ => Constant.isShared_of_isFiled
  have back : (after.pool.replace index result).Keeps Constant.isShared after.pool :=
    keeps_of_replace _ resultUnshared
  refine ⟨adds.sound.of_keeps (fits_replace adds.sound.fits _ _) filed,
    keeps_trans (adds.extended.keeps _) kept, ?_, ?_, adds.pairs, ?_⟩
  · intro place found both stands
    exact adds.samePairs.back place found both
      (back place found (Bool.and_eq_true_iff.mp both).1 stands)
  · rw [size_replace]
    exact adds.size
  · intro start once
    exact (adds.once start once).of_keeps (back.texts fun _ => rfl) rfl

theorem Edit.internPair_files {name descriptor : String} (sound : before.Sound)
    (run : Runs (internPair name descriptor) before index after) :
    before.FilesPair after (name, descriptor) index := by
  obtain ⟨afterSound, extended, -⟩ := internPair_sound sound run
  rcases runs_internPair run with ⟨known, rfl⟩ |
    ⟨unknown, nameIndex, named, descriptorIndex, described, pool, nameRun, descriptorRun, pushed,
      rfl⟩
  · refine ⟨sound, extended, fun _ _ _ => Or.inl, Nat.le_refl _, ?_, Or.inl known,
      fun _ once => once⟩
    intro wanted
    split
    · rename_i same
      exact same ▸ known
    · rfl
  · have first := internText_adds sound nameRun
    have adds := first.trans (internText_adds first.sound descriptorRun)
    obtain ⟨-, last, slots⟩ := push_slots adds.sound.fits rfl pushed
    have grown : described.pool.slots.size < pool.slots.size := by
      rw [slots, Array.size_push]
      omega
    refine ⟨afterSound, extended, ?_, Nat.le_of_lt (Nat.lt_of_le_of_lt adds.size grown), ?_,
      Or.inr ⟨unknown, ?_⟩, ?_⟩
    · intro place constant other stands
      rcases get?_of_push adds.sound.fits rfl pushed stands with ⟨here, rfl⟩ | earlier
      · exact Or.inr ⟨here, nameIndex, descriptorIndex, rfl⟩
      · exact Or.inl (adds.others place constant other earlier)
    · intro wanted
      rw [← adds.pairs]
      exact Bindings.get?_bind ..
    · rw [last, toNat_nextIndex adds.sound.fits]
      exact Nat.lt_succ_of_le adds.size
    · intro start once
      exact (adds.once start once).of_keeps (keeps_of_push _ adds.sound.fits rfl rfl pushed) rfl

end Steps

namespace Renamer

/-- While the first two passes go on: no pairs are added and references stay. The second pass has
changed the descriptors before `next`, and the table was told. -/
structure Ready (renamer : Renamer) (old : Pool) (next : Nat) (editing : Editing) : Prop where
  tracked : Tracked old.namesAndTypes editing
  once : editing.TextsOnce old.nextIndex
  size : old.slots.size ≤ editing.pool.slots.size
  references : ∀ index kind owner pair,
    editing.pool.get? index = some (.memberRef kind owner pair) ↔
      old.get? index = some (.memberRef kind owner pair)
  inside : ∀ index name descriptor,
    editing.pool.get? index = some (.nameAndType name descriptor) → index < old.nextIndex
  filing : Filing renamer old.namesAndTypes next editing.interner.pairs
  stands : ∀ index pair, renamer.pairAt old.namesAndTypes next index = some pair →
    editing.pool.pair? index = some pair

section FirstPasses

variable {renamer : Renamer} {old : Pool} {next : Nat} {index : UInt16} {before after : Editing}

theorem ready_ofPool (renamer : Renamer) (fits : old.Fits) :
    Ready renamer old 1 (.ofPool old) where
  tracked := tracked_ofPool fits
  once := .ofPool fits
  size := Nat.le_refl _
  references _ _ _ _ := Iff.rfl
  inside index name descriptor stands := by
    rw [UInt16.lt_iff_toNat_lt]
    exact (mem_indicesBelow.mp (mem_indicesBelow_nextIndex fits stands)).2
  filing := filing_ofPool renamer fits
  stands index pair stands := by
    rwa [pairAt_one fits] at stands

theorem Ready.of_samePairs (ready : Ready renamer old next before)
    (same : before.SamePairs after) : Ready renamer old next after where
  tracked := ready.tracked.of_keeps same.sound same.filed same.pairs
  once := same.once _ ready.once
  size := Nat.le_trans ready.size same.size
  references index kind owner pair :=
    same.memberRef_iff.trans (ready.references index kind owner pair)
  inside index name descriptor stands :=
    ready.inside index name descriptor (same.back index _ rfl stands)
  filing := same.pairs ▸ ready.filing
  stands index pair stands := same.pair? (ready.stands index pair stands)

theorem Ready.classConstant (ready : Ready renamer old next before)
    (run : Runs (renamer.classConstant index) before () after) : Ready renamer old next after := by
  rcases classConstant_cases run with ⟨-, rfl⟩ |
    ⟨name, text, target, grown, stands, -, retargeted, rfl⟩
  · exact ready
  · have adds := retarget_adds ready.tracked.sound retargeted
    exact ready.of_samePairs (adds.samePairs_replace stands rfl _ rfl)

/-- If the pair at an index is known, it is the one that stands there. -/
theorem Ready.descriptor (ready : Ready renamer old index.toNat before) {name descriptor : UInt16}
    (there : before.pool.get? index = some (.nameAndType name descriptor)) {text : String}
    (read : before.pool.text descriptor = .ok text) {nameText known : String}
    (noted : old.namesAndTypes.get? index = some (nameText, known)) : known = text := by
  have standing := ready.stands index _ (by rw [pairAt_of_le (Nat.le_refl _), noted])
  obtain ⟨_, _, here, -, descriptorRead⟩ := pair?_eq_some_iff.mp standing
  rw [there] at here
  cases here
  rw [read] at descriptorRead
  cases descriptorRead
  rfl

theorem Ready.stay (ready : Ready renamer old index.toNat before)
    (same : ∀ name text, old.namesAndTypes.get? index = some (name, text) →
      renamer.signature text = text) : Ready renamer old (index.toNat + 1) before :=
  { ready with
    filing := ready.filing.stay same
    stands := by
      rw [pairAt_stay same]
      exact ready.stands }

/-- A name and type gets another descriptor. -/
theorem Ready.move (ready : Ready renamer old index.toNat before) {name descriptor target : UInt16}
    (bound : index < old.nextIndex) {text : String}
    (there : before.pool.get? index = some (.nameAndType name descriptor))
    (read : before.pool.text descriptor = .ok text)
    (targetText : before.pool.text target = .ok (renamer.signature text))
    (changed : text ≠ renamer.signature text)
    (tracked : Tracked old.namesAndTypes { before with
      pool := before.pool.replace index (.nameAndType name target)
      interner := before.interner.told old.namesAndTypes index text (renamer.signature text) }) :
    Ready renamer old (index.toNat + 1) { before with
      pool := before.pool.replace index (.nameAndType name target)
      interner := before.interner.told old.namesAndTypes index text (renamer.signature text) } := by
  have texts : before.pool.KeepsTexts (before.pool.replace index (.nameAndType name target)) :=
    keeps_replace _ there rfl _
  have here := get?_replace_self there (.nameAndType name target)
  have elsewhere : ∀ place, place ≠ index →
      (before.pool.replace index (.nameAndType name target)).get? place =
        before.pool.get? place := fun _ other => get?_replace_of_ne _ other _
  refine ⟨tracked, ?_, ?_, ?_, ?_, ?_, ?_⟩
  · exact ready.once.of_keeps (keeps_of_replace _ rfl) (Interner.texts_told ..)
  · rw [size_replace]
    exact ready.size
  · intro place kind owner pair
    by_cases same : place = index
    · subst same
      rw [here, ← ready.references, there]
      simp
    · rw [elsewhere place same]
      exact ready.references place kind owner pair
  · intro place nameIndex descriptorIndex stands
    by_cases same : place = index
    · exact same ▸ bound
    · rw [elsewhere place same] at stands
      exact ready.inside place nameIndex descriptorIndex stands
  · unfold Interner.told
    split
    · rename_i nameText known noted
      cases ready.descriptor there read noted
      exact ready.filing.move noted changed
    · rename_i unknown
      refine ready.filing.stay ?_
      intro _ _ noted
      rw [unknown] at noted
      cases noted
  · intro place pair stands
    rw [pairAt_succ] at stands
    split at stands
    · rename_i same
      subst same
      obtain ⟨⟨nameText, known⟩, noted, rfl⟩ := Option.map_eq_some_iff.mp stands
      cases ready.descriptor there read noted
      exact pair?_eq_some_iff.mpr ⟨name, target, here,
        texts.text (ready.tracked.name there noted), texts.text targetText⟩
    · rename_i other
      exact pair?_replace_of_ne other texts (ready.stands place pair stands)

theorem Ready.nameAndTypeConstant (ready : Ready renamer old index.toNat before)
    (bound : index < old.nextIndex)
    (run : Runs (renamer.nameAndTypeConstant old.namesAndTypes index) before () after) :
    Ready renamer old (index.toNat + 1) after := by
  have tracked := (nameAndTypeConstant_step renamer index ready.tracked run).1
  rcases nameAndTypeConstant_cases run with ⟨other, rfl⟩ |
    ⟨name, descriptor, text, target, grown, stands, read, retargeted, ended⟩
  · refine ready.stay ?_
    intro nameText known noted
    obtain ⟨nameIndex, descriptorIndex, there, -⟩ := ready.tracked.names index _ _ noted
    exact absurd there (other nameIndex descriptorIndex)
  · have adds := retarget_adds ready.tracked.sound retargeted
    have grownReady := ready.of_samePairs adds.samePairs
    have present := adds.extended index _ rfl stands
    have grownRead := adds.extended.text read
    obtain ⟨-, -, targetText, -⟩ := retarget_sound ready.tracked.sound read retargeted
    rcases ended with ⟨rfl, rfl⟩ | ⟨changed, rfl⟩
    · refine grownReady.stay ?_
      intro nameText known noted
      rw [grownReady.descriptor present grownRead noted]
      rw [targetText] at grownRead
      exact Except.ok.inj grownRead
    · refine grownReady.move bound present grownRead targetText ?_ tracked
      intro same
      -- a text that stays has its index
      simp only [retarget, if_pos same] at retargeted
      exact changed (runs_pure.mp retargeted).1.symm

end FirstPasses

end Renamer

end Deobfuscation
