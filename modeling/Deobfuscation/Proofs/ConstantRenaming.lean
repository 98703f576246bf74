import Deobfuscation.Proofs.ClassNames
import Deobfuscation.Proofs.EditSteps
import Deobfuscation.Proofs.PoolPasses

/-!
Renaming constants. Three passes go over the indices of the pool: class names, then
descriptors of names and types, then member references and method types. The tables stay
sound although the second pass changes pairs that are filed in them. The main result says
what each constant of the old pool became.
-/

namespace Deobfuscation

open Edit Pool

namespace Pool

theorem namesAndTypes_eq (pool : Pool) : pool.namesAndTypes = .ofList
    (pool.entries.filterMap fun entry => (Interner.filedPair pool entry).map Prod.swap) := by
  unfold namesAndTypes
  congr 2
  funext ⟨index, constant⟩
  cases constant with
  | nameAndType name descriptor =>
      simp only [Interner.filedPair]
      cases pool.text name <;> cases pool.text descriptor <;> rfl
  | _ => rfl

theorem mem_namesAndTypes_iff {pool : Pool} (fits : pool.Fits) {index : UInt16}
    {pair : String × String} :
    (index, pair) ∈ pool.namesAndTypes.newest ↔ pool.pair? index = some pair := by
  rw [namesAndTypes_eq, Bindings.ofList, List.mem_reverse, List.mem_filterMap,
    ← Interner.exists_filedPair_iff fits]
  simp [Option.map_eq_some_iff, and_comm]

theorem get?_namesAndTypes {pool : Pool} (fits : pool.Fits) (index : UInt16) :
    pool.namesAndTypes.get? index = pool.pair? index := by
  unfold Bindings.get?
  cases expected : pool.pair? index with
  | none =>
      cases found : Table.find index pool.namesAndTypes.newest with
      | none => rfl
      | some pair =>
          have stands := (mem_namesAndTypes_iff fits).mp (Table.mem_of_find found)
          rw [expected] at stands
          cases stands
  | some pair =>
      obtain ⟨other, found⟩ := Table.find_of_mem ((mem_namesAndTypes_iff fits).mpr expected)
      have stands := (mem_namesAndTypes_iff fits).mp (Table.mem_of_find found)
      rw [expected] at stands
      rw [found, stands]

end Pool

namespace Renamer

def classPass (renamer : Renamer) : Pass where
  kept
    | .className _ => false
    | _ => true
  Becomes old new
    | .className name, result => ∃ target, result = .className target ∧
        TextBecomes renamer.className old new name target
    | constant, result => result = constant
  becomes_kept := by
    intro old new constant result kept
    cases constant with
    | className name => cases kept
    | _ => exact Iff.rfl
  becomes_of_keeps := by
    intro first old new last constant result earlier later becomes
    cases constant with
    | className name =>
        obtain ⟨target, same, text⟩ := becomes
        exact ⟨target, same,
          textBecomes_of_keeps (earlier.texts fun _ => rfl) (later.texts fun _ => rfl) text⟩
    | _ => exact becomes

def descriptorPass (renamer : Renamer) : Pass where
  kept
    | .nameAndType .. => false
    | _ => true
  Becomes old new
    | .nameAndType name descriptor, result => ∃ target, result = .nameAndType name target ∧
        TextBecomes renamer.signature old new descriptor target
    | constant, result => result = constant
  becomes_kept := by
    intro old new constant result kept
    cases constant with
    | nameAndType name descriptor => cases kept
    | _ => exact Iff.rfl
  becomes_of_keeps := by
    intro first old new last constant result earlier later becomes
    cases constant with
    | nameAndType name descriptor =>
        obtain ⟨target, same, text⟩ := becomes
        exact ⟨target, same,
          textBecomes_of_keeps (earlier.texts fun _ => rfl) (later.texts fun _ => rfl) text⟩
    | _ => exact becomes

/-- Member references get names and types with new names, and method types new descriptors. The
owner is renamed already, and `known` holds the names and types from before. -/
def referencePass (renamer : Renamer) (known : Bindings UInt16 (String × String)) : Pass where
  kept
    | .memberRef .. | .methodType _ => false
    | _ => true
  Becomes old new
    | .memberRef kind owner pair, result => ∃ target, result = .memberRef kind owner target ∧
        ∀ ownerText name descriptor, old.className owner = .ok ownerText →
          known.get? pair = some (name, descriptor) →
          new.pair? target = some
            (renamer.member kind (renamer.obfuscatedName ownerText) name
              (renamer.signature descriptor), renamer.signature descriptor)
    | .methodType descriptor, result => ∃ target, result = .methodType target ∧
        TextBecomes renamer.signature old new descriptor target
    | constant, result => result = constant
  becomes_kept := by
    intro old new constant result kept
    cases constant with
    | memberRef kind owner pair => cases kept
    | methodType descriptor => cases kept
    | _ => exact Iff.rfl
  becomes_of_keeps := by
    intro first old new last constant result earlier later becomes
    have firstTexts := earlier.texts fun _ => rfl
    have lastTexts := later.texts fun _ => rfl
    cases constant with
    | memberRef kind owner pair =>
        obtain ⟨target, same, renamed⟩ := becomes
        refine ⟨target, same, ?_⟩
        intro ownerText name descriptor read noted
        have ownerRead := firstTexts.className earlier (fun _ => rfl) read
        exact lastTexts.pair? later (fun _ _ => rfl) (renamed _ _ _ ownerRead noted)
    | methodType descriptor =>
        obtain ⟨target, same, text⟩ := becomes
        exact ⟨target, same, textBecomes_of_keeps firstTexts lastTexts text⟩
    | _ => exact becomes

section Tracking

/-- While descriptors change, names and types keep their names, and every pair that is filed was
known from the start. -/
structure Tracked (known : Bindings UInt16 (String × String)) (editing : Editing) : Prop where
  sound : editing.Sound
  names : ∀ index name descriptor, known.get? index = some (name, descriptor) →
    ∃ nameIndex descriptorIndex,
      editing.pool.get? index = some (.nameAndType nameIndex descriptorIndex) ∧
      editing.pool.text nameIndex = .ok name
  pairs : ∀ name descriptor index,
    editing.interner.pairs.get? (name, descriptor) = some index →
    ∃ old, known.get? index = some (name, old)

variable {known : Bindings UInt16 (String × String)} {before after : Editing}

theorem tracked_ofPool {pool : Pool} (fits : pool.Fits) :
    Tracked pool.namesAndTypes (.ofPool pool) := by
  have sound := Editing.ofPool_sound fits
  refine ⟨sound, ?_, ?_⟩
  · intro index name descriptor noted
    rw [get?_namesAndTypes fits] at noted
    obtain ⟨nameIndex, descriptorIndex, stands, read, -⟩ := pair?_eq_some_iff.mp noted
    exact ⟨nameIndex, descriptorIndex, stands, read⟩
  · intro name descriptor index filed
    exact ⟨descriptor, by rw [get?_namesAndTypes fits]; exact sound.pairs _ _ filed⟩

theorem Tracked.of_keeps (tracked : Tracked known before) (sound : after.Sound)
    (stays : before.pool.Keeps Constant.isFiled after.pool)
    (samePairs : after.interner.pairs = before.interner.pairs) : Tracked known after := by
  refine ⟨sound, ?_, ?_⟩
  · intro index name descriptor noted
    obtain ⟨nameIndex, descriptorIndex, stands, read⟩ := tracked.names index name descriptor noted
    exact ⟨nameIndex, descriptorIndex, stays index _ rfl stands,
      (stays.texts fun _ => rfl).text read⟩
  · intro name descriptor index filed
    rw [samePairs] at filed
    exact tracked.pairs name descriptor index filed

theorem classConstant_step (renamer : Renamer) (index : UInt16) (tracked : Tracked known before)
    (run : Runs (renamer.classConstant index) before () after) :
    Tracked known after ∧ renamer.classPass.Covers [index] before.pool after.pool := by
  rcases classConstant_cases run with ⟨other, rfl⟩ |
    ⟨name, text, target, grown, stands, read, retargeted, rfl⟩
  · refine ⟨tracked, Pass.covers_same ?_⟩
    intro constant here
    cases constant with
    | className name => exact absurd here (other name)
    | _ => rfl
  · obtain ⟨sound, extended, targetText, samePairs⟩ :=
      retarget_sound tracked.sound read retargeted
    have present := extended index _ rfl stands
    have stays := keeps_replace Constant.isFiled present rfl (.className target)
    constructor
    · apply tracked.of_keeps (sound.of_keeps (fits_replace sound.fits _ _) stays) _ samePairs
      exact keeps_trans (extended.keeps _) stays
    · apply Pass.covers_replace stands extended
      refine ⟨target, rfl, ?_⟩
      intro other otherRead
      rw [read] at otherRead
      cases otherRead
      exact (stays.texts fun _ => rfl).text targetText

theorem Tracked.name (tracked : Tracked known before) {index name descriptor : UInt16}
    (stands : before.pool.get? index = some (.nameAndType name descriptor)) {nameText old : String}
    (noted : known.get? index = some (nameText, old)) : before.pool.text name = .ok nameText := by
  obtain ⟨nameIndex, descriptorIndex, there, read⟩ := tracked.names index nameText old noted
  rw [stands] at there
  cases there
  exact read

/-- Once the tables are told, a pair is filed at the index under its new texts only. All others
are filed where they were. -/
theorem Tracked.filed (tracked : Tracked known before) {index name descriptor : UInt16}
    {text mapped : String}
    (stands : before.pool.get? index = some (.nameAndType name descriptor))
    (read : before.pool.text descriptor = .ok text) {interner : Interner}
    (told : ∀ nameText old, known.get? index = some (nameText, old) →
      interner.pairs = (before.interner.moved index nameText text mapped).pairs)
    (untold : known.get? index = none → interner.pairs = before.interner.pairs)
    {pair : String × String} {place : UInt16} (found : interner.pairs.get? pair = some place) :
    (place = index ∧ ∃ old, known.get? index = some (pair.1, old) ∧ pair.2 = mapped) ∨
      (place ≠ index ∧ before.interner.pairs.get? pair = some place) := by
  cases noted : known.get? index with
  | none =>
      rw [untold noted] at found
      refine Or.inr ⟨?_, found⟩
      intro same
      obtain ⟨old, there⟩ := tracked.pairs pair.1 pair.2 place found
      rw [same, noted] at there
      cases there
  | some entry =>
      obtain ⟨nameText, old⟩ := entry
      rw [told nameText old noted] at found
      have standing : before.pool.pair? index = some (nameText, text) :=
        pair?_eq_some_iff.mpr ⟨name, descriptor, stands, tracked.name stands noted, read⟩
      rcases tracked.sound.filed_moved standing found with ⟨rfl, rfl⟩ | elsewhere
      · exact Or.inl ⟨rfl, old, rfl, rfl⟩
      · exact Or.inr elsewhere

theorem Tracked.move (tracked : Tracked known before) {index name descriptor target : UInt16}
    {text mapped : String}
    (stands : before.pool.get? index = some (.nameAndType name descriptor))
    (read : before.pool.text descriptor = .ok text)
    (targetText : before.pool.text target = .ok mapped)
    (interner : Interner) (sameTexts : interner.texts = before.interner.texts)
    (told : ∀ nameText old, known.get? index = some (nameText, old) →
      interner.pairs = (before.interner.moved index nameText text mapped).pairs)
    (untold : known.get? index = none → interner.pairs = before.interner.pairs) :
    Tracked known { before with
      pool := before.pool.replace index (.nameAndType name target)
      interner } := by
  have texts : before.pool.KeepsTexts (before.pool.replace index (.nameAndType name target)) :=
    keeps_replace _ stands rfl _
  have here := get?_replace_self stands (.nameAndType name target)
  refine ⟨tracked.sound.replace stands targetText sameTexts ?_, ?_, ?_⟩
  · intro pair place found
    rcases tracked.filed stands read told untold found with ⟨here, old, noted, same⟩ | elsewhere
    · exact Or.inl ⟨here, tracked.name stands noted, same⟩
    · exact Or.inr elsewhere
  · intro place nameText old noted
    obtain ⟨nameIndex, descriptorIndex, there, first⟩ := tracked.names place nameText old noted
    by_cases same : place = index
    · subst same
      exact ⟨name, target, here, texts.text (tracked.name stands noted)⟩
    · exact ⟨nameIndex, descriptorIndex, (get?_replace_of_ne _ same _).trans there,
        texts.text first⟩
  · intro nameText descriptorText place found
    rcases tracked.filed stands read told untold found with
      ⟨rfl, old, noted, -⟩ | ⟨-, present⟩
    · exact ⟨old, noted⟩
    · exact tracked.pairs nameText descriptorText place present

theorem nameAndTypeConstant_step (renamer : Renamer) (index : UInt16)
    (tracked : Tracked known before)
    (run : Runs (renamer.nameAndTypeConstant known index) before () after) :
    Tracked known after ∧ renamer.descriptorPass.Covers [index] before.pool after.pool := by
  rcases nameAndTypeConstant_cases run with ⟨other, rfl⟩ |
    ⟨name, descriptor, text, target, grown, stands, read, retargeted, ended⟩
  · refine ⟨tracked, Pass.covers_same ?_⟩
    intro constant here
    cases constant with
    | nameAndType name descriptor => exact absurd here (other name descriptor)
    | _ => rfl
  · obtain ⟨sound, extended, targetText, samePairs⟩ :=
      retarget_sound tracked.sound read retargeted
    have grownTracked := tracked.of_keeps sound (extended.keeps _) samePairs
    have present := extended index _ rfl stands
    have becomes : ∀ pool, grown.pool.KeepsTexts pool →
        renamer.descriptorPass.Becomes before.pool pool (.nameAndType name descriptor)
          (.nameAndType name target) := by
      intro pool texts
      refine ⟨target, rfl, ?_⟩
      intro other otherRead
      rw [read] at otherRead
      cases otherRead
      exact texts.text targetText
    rcases ended with ⟨same, rfl⟩ | ⟨-, rfl⟩
    · refine ⟨grownTracked, Pass.covers_extends extended ?_⟩
      intro constant here
      rw [stands] at here
      cases here
      exact same ▸ becomes _ (keeps_refl _ _)
    · refine ⟨?_,
        Pass.covers_replace stands extended (becomes _ (keeps_replace _ present rfl _))⟩
      apply grownTracked.move present (extended.text read) targetText _ (Interner.texts_told ..)
      · intro nameText old noted
        rw [Interner.told, noted]
      · intro unknown
        rw [Interner.told, unknown]

end Tracking

section References

variable {known : Bindings UInt16 (String × String)} {before after : Editing}

theorem descriptorAt_sound {renamer : Renamer} {index target : UInt16} (sound : before.Sound)
    (run : Runs (renamer.descriptorAt index) before target after) :
    after.Sound ∧ before.pool.Extends after.pool ∧
      TextBecomes renamer.signature before.pool after.pool index target := by
  obtain ⟨text, read, retargeted⟩ := descriptorAt_cases run
  obtain ⟨afterSound, extended, targetText, -⟩ := retarget_sound sound read retargeted
  refine ⟨afterSound, extended, ?_⟩
  intro other otherRead
  rw [read] at otherRead
  cases otherRead
  exact targetText

/-- After the second pass the known names and types have their new descriptors. -/
structure Settled (renamer : Renamer) (known : Bindings UInt16 (String × String))
    (editing : Editing) : Prop where
  sound : editing.Sound
  pairs : ∀ index name descriptor, known.get? index = some (name, descriptor) →
    editing.pool.pair? index = some (name, renamer.signature descriptor)

theorem Settled.of_keeps {renamer : Renamer} (settled : Settled renamer known before)
    (sound : after.Sound) (stays : before.pool.Keeps Constant.isFiled after.pool) :
    Settled renamer known after := by
  refine ⟨sound, ?_⟩
  intro index name descriptor noted
  exact (stays.texts fun _ => rfl).pair? stays (fun _ _ => rfl)
    (settled.pairs index name descriptor noted)

/-- A reference gets a pair with its new name and descriptor. The pair it has is good enough only
if neither changes. -/
theorem reference_sound {renamer : Renamer} {inside : String} {kind : MemberKind}
    {owner pair target : UInt16} (settled : Settled renamer known before)
    (run : Runs (renamer.reference known inside kind owner pair) before target after) :
    after.Sound ∧ before.pool.Extends after.pool ∧
      ∃ ownerText name descriptor, before.pool.className owner = .ok ownerText ∧
        known.get? pair = some (name, descriptor) ∧
        after.pool.pair? target = some
          (renamer.member kind (renamer.obfuscatedName ownerText) name
            (renamer.signature descriptor), renamer.signature descriptor) := by
  obtain ⟨ownerText, name, descriptor, newName, newDescriptor, ownerRead, noted, rfl, rfl,
    ⟨unchanged, rfl, rfl⟩ | ⟨-, notices, interned⟩⟩ := reference_cases run
  -- the pair is used as it is, and the second pass already gave it its descriptor
  · refine ⟨settled.sound, extends_refl _, ownerText, name, descriptor, ownerRead, noted, ?_⟩
    rw [(Prod.mk.inj unchanged).1]
    exact settled.pairs target name descriptor noted
  · obtain ⟨sound, extended, stands⟩ := internPair_sound (settled.sound.with_notices _) interned
    exact ⟨sound, extended, ownerText, name, descriptor, ownerRead, noted, stands⟩

theorem referenceConstant_step (renamer : Renamer) (inside : String) (index : UInt16)
    (settled : Settled renamer known before)
    (run : Runs (renamer.referenceConstant known inside index) before () after) :
    Settled renamer known after ∧
      (renamer.referencePass known).Covers [index] before.pool after.pool := by
  have replaced : ∀ {grown : Editing} {constant : Constant} (result : Constant),
      grown.Sound → before.pool.Extends grown.pool →
      before.pool.get? index = some constant → constant.isFiled = false →
      Settled renamer known { grown with pool := grown.pool.replace index result } := by
    intro grown constant result sound extended stands unfiled
    have stays := keeps_replace Constant.isFiled (extended index _ rfl stands) unfiled result
    apply settled.of_keeps (sound.of_keeps (fits_replace sound.fits _ _) stays)
    exact keeps_trans (extended.keeps _) stays
  rcases referenceConstant_cases run with ⟨noReference, noMethodType, rfl⟩ |
    ⟨kind, owner, pair, target, grown, stands, referenced, rfl⟩ |
    ⟨descriptor, target, grown, stands, described, rfl⟩
  · refine ⟨settled, Pass.covers_same ?_⟩
    intro constant here
    cases constant with
    | memberRef kind owner pair => exact absurd here (noReference kind owner pair)
    | methodType descriptor => exact absurd here (noMethodType descriptor)
    | _ => rfl
  · obtain ⟨sound, extended, ownerText, name, descriptor, ownerRead, noted, renamed⟩ :=
      reference_sound settled referenced
    have stays := keeps_replace Constant.isFiled (extended index _ rfl stands) rfl
      (.memberRef kind owner target)
    refine ⟨replaced _ sound extended stands rfl, Pass.covers_replace stands extended ?_⟩
    refine ⟨target, rfl, ?_⟩
    intro otherOwner otherName otherDescriptor otherRead otherNoted
    rw [ownerRead] at otherRead
    rw [noted] at otherNoted
    cases otherRead
    cases otherNoted
    exact (stays.texts fun _ => rfl).pair? stays (fun _ _ => rfl) renamed
  · obtain ⟨sound, extended, becomes⟩ := descriptorAt_sound settled.sound described
    have texts : grown.pool.KeepsTexts (grown.pool.replace index (.methodType target)) :=
      keeps_replace _ (extended index _ rfl stands) rfl _
    refine ⟨replaced _ sound extended stands rfl, Pass.covers_replace stands extended ?_⟩
    exact ⟨target, rfl, textBecomes_of_keeps (keeps_refl _ _) texts becomes⟩

end References

/-- The pair that a reference has afterwards. A field is looked for by its name, and a method of a
class or an interface by name and new descriptor, from the class that the new name of the owner
leads back to. -/
structure ReferenceRenamed (renamer : Renamer) (old new : Pool) (kind : MemberKind)
    (owner pair target : UInt16) : Prop where
  field : kind = .field → ∀ ownerText name descriptor, old.className owner = .ok ownerText →
    old.pair? pair = some (name, descriptor) →
    new.pair? target = some
      (renamer.field (renamer.ownerName ownerText) name, renamer.signature descriptor)
  method : kind ≠ .field → ∀ ownerText name descriptor, old.className owner = .ok ownerText →
    old.pair? pair = some (name, descriptor) →
    new.pair? target = some
      (renamer.method (renamer.ownerName ownerText) name (renamer.signature descriptor),
        renamer.signature descriptor)

theorem referenceRenamed_iff {renamer : Renamer} {old new : Pool} {kind : MemberKind}
    {owner pair target : UInt16} :
    renamer.ReferenceRenamed old new kind owner pair target ↔
      ∀ ownerText name descriptor, old.className owner = .ok ownerText →
        old.pair? pair = some (name, descriptor) →
        new.pair? target = some
          (renamer.member kind (renamer.ownerName ownerText) name
            (renamer.signature descriptor), renamer.signature descriptor) := by
  cases kind with
  | field => exact ⟨fun renamed => renamed.field rfl, fun given => ⟨fun _ => given, nofun⟩⟩
  | method => exact ⟨fun renamed => renamed.method nofun, fun given => ⟨nofun, fun _ => given⟩⟩
  | interfaceMethod =>
      exact ⟨fun renamed => renamed.method nofun, fun given => ⟨nofun, fun _ => given⟩⟩

/-- What a constant of the old pool is in the new one. Texts that a constant denotes are mapped
once. -/
def ConstantRenamed (renamer : Renamer) (old new : Pool) : Constant → Constant → Prop
  | .className name, result => ∃ target, result = .className target ∧
      TextBecomes renamer.className old new name target
  | .nameAndType name descriptor, result => ∃ target, result = .nameAndType name target ∧
      TextBecomes renamer.signature old new descriptor target
  | .methodType descriptor, result => ∃ target, result = .methodType target ∧
      TextBecomes renamer.signature old new descriptor target
  | .memberRef kind owner pair, result => ∃ target, result = .memberRef kind owner target ∧
      renamer.ReferenceRenamed old new kind owner pair target
  | constant, result => result = constant

/-- Every constant of the old pool is renamed at its index. -/
def PoolRenamed (renamer : Renamer) (old new : Pool) : Prop :=
  ∀ index constant, old.get? index = some constant →
    ∃ result, new.get? index = some result ∧ renamer.ConstantRenamed old new constant result

section Results

variable {renamer : Renamer} {old new last : Pool}

theorem PoolRenamed.texts (renamed : renamer.PoolRenamed old new) : old.KeepsTexts new := by
  intro index constant wanted found
  obtain ⟨result, stands, becomes⟩ := renamed index constant found
  cases constant with
  | utf8 bytes =>
      cases becomes
      exact stands
  | _ => cases wanted

theorem PoolRenamed.className (renamed : renamer.PoolRenamed old new) {index : UInt16}
    {text : String} (read : old.className index = .ok text) :
    new.className index = .ok (renamer.className text) := by
  obtain ⟨name, found, inner⟩ := className_eq_ok_iff.mp read
  obtain ⟨result, stands, target, rfl, becomes⟩ := renamed index _ found
  exact className_eq_ok_iff.mpr ⟨target, stands, becomes text inner⟩

theorem PoolRenamed.extend (renamed : renamer.PoolRenamed old new)
    (extended : new.Extends last) : renamer.PoolRenamed old last := by
  have later : ∀ {change : String → String} {before after : UInt16},
      TextBecomes change old new before after → TextBecomes change old last before after :=
    textBecomes_of_keeps (keeps_refl _ _) extended.texts
  intro index constant found
  obtain ⟨result, stands, becomes⟩ := renamed index constant found
  refine ⟨result, extended index result rfl stands, ?_⟩
  cases constant with
  | className name =>
      obtain ⟨target, same, text⟩ := becomes
      exact ⟨target, same, later text⟩
  | nameAndType name descriptor =>
      obtain ⟨target, same, text⟩ := becomes
      exact ⟨target, same, later text⟩
  | methodType descriptor =>
      obtain ⟨target, same, text⟩ := becomes
      exact ⟨target, same, later text⟩
  | memberRef kind owner pair =>
      obtain ⟨target, same, pairs⟩ := becomes
      refine ⟨target, same, referenceRenamed_iff.mpr ?_⟩
      intro ownerText name descriptor ownerRead read
      exact extended.pair? (referenceRenamed_iff.mp pairs ownerText name descriptor ownerRead read)
  | _ => exact becomes

theorem settled_of_covers {pool : Pool} (fits : pool.Fits) {first second : Editing}
    (tracked : Tracked pool.namesAndTypes second)
    (classes : renamer.classPass.Covers (indicesBelow pool.nextIndex) pool first.pool)
    (descriptors : renamer.descriptorPass.Covers (indicesBelow pool.nextIndex)
      first.pool second.pool) :
    Settled renamer pool.namesAndTypes second := by
  refine ⟨tracked.sound, ?_⟩
  intro index name descriptor noted
  rw [get?_namesAndTypes fits] at noted
  obtain ⟨nameIndex, descriptorIndex, stands, nameRead, descriptorRead⟩ :=
    pair?_eq_some_iff.mp noted
  have firstTexts := classes.keeps.texts fun _ => rfl
  have secondTexts := descriptors.keeps.texts fun _ => rfl
  have between := classes.keeps index _ rfl stands
  obtain ⟨result, last, changed, -⟩ := descriptors index _ between
  obtain ⟨target, rfl, becomes⟩ := changed (mem_indicesBelow_nextIndex fits stands)
  exact pair?_eq_some_iff.mpr ⟨nameIndex, target, last,
    secondTexts.text (firstTexts.text nameRead), becomes _ (firstTexts.text descriptorRead)⟩

theorem poolRenamed_of_covers {pool first second third : Pool} (fits : pool.Fits)
    (classes : renamer.classPass.Covers (indicesBelow pool.nextIndex) pool first)
    (descriptors : renamer.descriptorPass.Covers (indicesBelow pool.nextIndex) first second)
    (references : (renamer.referencePass pool.namesAndTypes).Covers
      (indicesBelow pool.nextIndex) second third) :
    renamer.PoolRenamed pool third := by
  have firstTexts := classes.keeps.texts fun _ => rfl
  have secondTexts := descriptors.keeps.texts fun _ => rfl
  have thirdTexts := references.keeps.texts fun _ => rfl
  intro index constant found
  have inside := mem_indicesBelow_nextIndex fits found
  obtain ⟨one, oneStands, oneChanged, -⟩ := classes index constant found
  obtain ⟨two, twoStands, twoChanged, -⟩ := descriptors index one oneStands
  obtain ⟨three, threeStands, threeChanged, -⟩ := references index two twoStands
  have oneBecomes := oneChanged inside
  have twoBecomes := twoChanged inside
  have threeBecomes := threeChanged inside
  refine ⟨three, threeStands, ?_⟩
  -- every kind of constant is changed by at most one of the passes
  cases constant with
  | className name =>
      obtain ⟨target, rfl, becomes⟩ := oneBecomes
      cases twoBecomes
      cases threeBecomes
      exact ⟨target, rfl,
        textBecomes_of_keeps (keeps_refl _ _) (keeps_trans secondTexts thirdTexts) becomes⟩
  | nameAndType name descriptor =>
      cases oneBecomes
      obtain ⟨target, rfl, becomes⟩ := twoBecomes
      cases threeBecomes
      exact ⟨target, rfl, textBecomes_of_keeps firstTexts thirdTexts becomes⟩
  | methodType descriptor =>
      cases oneBecomes
      cases twoBecomes
      obtain ⟨target, rfl, becomes⟩ := threeBecomes
      exact ⟨target, rfl,
        textBecomes_of_keeps (keeps_trans firstTexts secondTexts) (keeps_refl _ _) becomes⟩
  | memberRef kind owner pair =>
      cases oneBecomes
      cases twoBecomes
      obtain ⟨target, rfl, becomes⟩ := threeBecomes
      refine ⟨target, rfl, referenceRenamed_iff.mpr ?_⟩
      intro ownerText name descriptor ownerRead pairRead
      -- the owner has its new name before references are looked at
      have ownerRenamed : second.className owner = .ok (renamer.className ownerText) := by
        obtain ⟨place, stands, inner⟩ := className_eq_ok_iff.mp ownerRead
        obtain ⟨_, renamedStands, changed, -⟩ := classes owner _ stands
        obtain ⟨target, rfl, text⟩ := changed (mem_indicesBelow_nextIndex fits stands)
        exact className_eq_ok_iff.mpr ⟨target, descriptors.keeps owner _ rfl renamedStands,
          secondTexts.text (text ownerText inner)⟩
      rw [← get?_namesAndTypes fits] at pairRead
      exact becomes _ name descriptor ownerRenamed pairRead
  | _ =>
      cases oneBecomes
      cases twoBecomes
      exact threeBecomes

/-- Renaming the constants of a pool gives each of them its new names, and the tables stay
sound. -/
theorem constants_renamed {pool : Pool} {inside : String} {after : Editing} (fits : pool.Fits)
    (run : Runs (renamer.constants inside) (.ofPool pool) () after) :
    after.Sound ∧ renamer.PoolRenamed pool after.pool := by
  simp only [constants, runs_bind, runs_get] at run
  obtain ⟨_, _, ⟨rfl, rfl⟩, _, first, firstRun, _, second, secondRun, thirdRun⟩ := run
  obtain ⟨firstTracked, classes⟩ := forIndices_covers
    (fun index _ _ tracked => classConstant_step renamer index tracked)
    (tracked_ofPool fits) firstRun
  obtain ⟨secondTracked, descriptors⟩ := forIndices_covers
    (fun index _ _ tracked => nameAndTypeConstant_step renamer index tracked)
    firstTracked secondRun
  obtain ⟨settled, references⟩ := forIndices_covers
    (fun index _ _ settled => referenceConstant_step renamer inside index settled)
    (settled_of_covers fits secondTracked classes descriptors) thirdRun
  exact ⟨settled.sound, poolRenamed_of_covers fits classes descriptors references⟩

end Results

end Renamer

end Deobfuscation
