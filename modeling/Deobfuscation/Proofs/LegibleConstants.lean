import Deobfuscation.Proofs.NameSites
import Deobfuscation.Proofs.PoolRoom
import Deobfuscation.Proofs.RenamingFrame
import Deobfuscation.Proofs.SharedReferences

/-!
What renaming reads while it changes the constants of a pool. If it can be read at first, it can
be read when its turn comes: texts never move, class constants stay class constants, and whatever
replaces a constant can be read as well. So the passes over the pool fail only for lack of room.
-/

namespace Deobfuscation

open Edit Pool

section Legibility

/-- The index of the text that renaming reads when it comes to a constant. -/
def Constant.textIndex? : Constant → Option UInt16
  | .className name => some name
  | .nameAndType _ descriptor | .methodType descriptor => some descriptor
  | _ => none

def Constant.isClass : Constant → Bool
  | .className _ => true
  | _ => false

/-- The index of the name, in a name and type. -/
def Constant.pairName? : Constant → Option UInt16
  | .nameAndType name _ => some name
  | _ => none

namespace Pool

variable (pool : Pool)

def Readable (index : UInt16) : Prop := ∃ text, pool.text index = .ok text

def IsClass (index : UInt16) : Prop := ∃ constant ∈ pool.get? index, constant.isClass = true

/-- A name and type stands at the index, and its name is a text. -/
def IsNamed (index : UInt16) : Prop :=
  ∃ constant ∈ pool.get? index, ∃ name ∈ constant.pairName?, pool.Readable name

/-- What renaming reads at a site is there. -/
def LegibleAt : Site → Prop
  | .className index | .type index | .field index | .localName index => pool.Readable index
  | .method name descriptor => pool.Readable name ∧ pool.Readable descriptor
  | .reference _ owner pair => pool.IsClass owner ∧ pool.IsNamed pair
  | .generics => True
  | .nested entry =>
      entry.outer ≠ 0 → entry.inner ≠ 0 → pool.IsClass entry.outer ∧ pool.IsClass entry.inner

instance (index : UInt16) : Decidable (pool.Readable index) :=
  match read : pool.text index with
  | .ok text => isTrue ⟨text, read⟩
  | .error _ => isFalse fun ⟨_, also⟩ => nomatch read.symm.trans also

instance (index : UInt16) : Decidable (pool.IsClass index) :=
  inferInstanceAs (Decidable (∃ _ ∈ _, _))

instance (index : UInt16) : Decidable (pool.IsNamed index) :=
  inferInstanceAs (Decidable (∃ _ ∈ _, _))

instance (site : Site) : Decidable (pool.LegibleAt site) :=
  match site with
  | .className _ | .type _ | .field _ | .localName _ => inferInstanceAs (Decidable (Readable ..))
  | .method .. | .reference .. => inferInstanceAs (Decidable (_ ∧ _))
  | .generics => inferInstanceAs (Decidable True)
  | .nested _ => inferInstanceAs (Decidable (_ → _))

end Pool

/-- Everything that renaming reads in the class file is there. Nothing is asked of other
attributes, of the texts of string constants, of the names of nested classes, or of names with
types that no reference uses, but for their descriptors. -/
structure ClassFile.Legible (file : ClassFile) : Prop where
  thisClass : file.pool.IsClass file.thisClass
  sites : ∀ site ∈ file.sites, file.pool.LegibleAt site

end Legibility

section Reading

variable {old pool new : Pool} {index : UInt16}

theorem Pool.KeepsTexts.readable (texts : pool.KeepsTexts new) (readable : pool.Readable index) :
    new.Readable index :=
  readable.imp fun _ => texts.text

theorem Pool.isClass_iff :
    pool.IsClass index ↔ ∃ name, pool.get? index = some (.className name) := by
  constructor
  · rintro ⟨constant, stands, isClass⟩
    cases constant with
    | className name => exact ⟨name, stands⟩
    | _ => cases isClass
  · rintro ⟨name, stands⟩
    exact ⟨_, stands, rfl⟩

theorem Pool.GrowsInto.isClass (grown : old.GrowsInto new) (isClass : old.IsClass index) :
    new.IsClass index := by
  obtain ⟨name, stands⟩ := isClass_iff.mp isClass
  obtain ⟨result, there, same⟩ := grown.get? stands
  cases result with
  | className target => exact isClass_iff.mpr ⟨target, there⟩
  | _ => cases same

/-- Whenever renaming comes to a constant of the pool, it can read its text. -/
def Pool.TextsStand (pool : Pool) : Prop :=
  ∀ index constant, pool.get? index = some constant →
    ∀ place ∈ constant.textIndex?, pool.Readable place

theorem Pool.TextsStand.className (stand : pool.TextsStand) (isClass : pool.IsClass index) :
    ∃ text, pool.className index = .ok text := by
  obtain ⟨name, stands⟩ := isClass_iff.mp isClass
  obtain ⟨text, read⟩ := stand index _ stands name rfl
  exact ⟨text, className_eq_ok_iff.mpr ⟨name, stands, read⟩⟩

/-- A constant that is no text is replaced by another one whose text can be read. -/
theorem Pool.TextsStand.replace (stand : pool.TextsStand) {constant result : Constant}
    (stands : pool.get? index = some constant) (noText : constant.isNoText = true)
    (reads : ∀ place ∈ result.textIndex?, pool.Readable place) :
    (pool.replace index result).TextsStand := by
  have texts : pool.KeepsTexts (pool.replace index result) := by
    apply keeps_replace _ stands
    cases constant with
    | utf8 bytes => cases noText
    | _ => rfl
  intro place found there target wanted
  rw [get?_replace] at there
  split at there
  · cases there
    exact texts.readable (reads target wanted)
  · exact texts.readable (stand place found there target wanted)

theorem Constant.isNoText_of_textIndex? {constant : Constant} {place : UInt16}
    (wanted : place ∈ constant.textIndex?) : constant.isNoText = true := by
  cases constant with
  | utf8 bytes => cases wanted
  | _ => rfl

theorem Editing.AddsTexts.textsStand {before after : Editing} (adds : before.AddsTexts after)
    (stand : before.pool.TextsStand) : after.pool.TextsStand := by
  intro place constant there target wanted
  have earlier := adds.others place constant (Constant.isNoText_of_textIndex? wanted) there
  exact adds.extended.texts.readable (stand place constant earlier target wanted)

/-- A constant gets the index of another text. -/
theorem Edit.retarget_textsStand {before grown : Editing} {place target : UInt16}
    {oldText newText : String} {constant result : Constant} (sound : before.Sound)
    (stand : before.pool.TextsStand) (stands : before.pool.get? index = some constant)
    (noText : constant.isNoText = true) (read : before.pool.text place = .ok oldText)
    (run : Runs (retarget place oldText newText) before target grown)
    (reads : result.textIndex? = some target) : (grown.pool.replace index result).TextsStand := by
  have adds := retarget_adds sound run
  obtain ⟨-, -, targetText, -⟩ := retarget_sound sound read run
  apply (adds.textsStand stand).replace (adds.extended index _ rfl stands) noText
  intro wanted same
  rw [reads] at same
  cases same
  exact ⟨newText, targetText⟩

theorem Edit.internPair_textsStand {before after : Editing} {name descriptor : String}
    (sound : before.Sound) (stand : before.pool.TextsStand)
    (run : Runs (internPair name descriptor) before index after) : after.pool.TextsStand := by
  have files := internPair_files sound run
  obtain ⟨-, -, added⟩ := internPair_sound sound run
  obtain ⟨_, _, addedThere, -, addedRead⟩ := pair?_eq_some_iff.mp added
  intro place constant there target wanted
  rcases files.others place constant (Constant.isNoText_of_textIndex? wanted) there with
    earlier | ⟨rfl, -⟩
  · exact files.extended.texts.readable (stand place constant earlier target wanted)
  · rw [addedThere] at there
    cases there
    cases wanted
    exact ⟨descriptor, addedRead⟩

end Reading

namespace Renamer

variable {renamer : Renamer} {known : Bindings UInt16 (String × String)} {inside : String}
  {index : UInt16} {before after : Editing}

section Constants

theorem descriptorAt_onlyFull (fits : before.pool.Fits) (readable : before.pool.Readable index) :
    OnlyFull (renamer.descriptorAt index) before := by
  obtain ⟨text, read⟩ := readable
  exact onlyFull_after (runs_text.mpr ⟨read, rfl⟩) (retarget_onlyFull _ _ _ fits)

theorem classConstant_onlyFull (fits : before.pool.Fits) (stand : before.pool.TextsStand) :
    OnlyFull (renamer.classConstant index) before := by
  apply onlyFull_after (runs_constant?.mpr ⟨rfl, rfl⟩)
  split
  · rename_i name stands
    obtain ⟨text, read⟩ := stand index _ stands name rfl
    apply onlyFull_after (runs_inContext.mpr (runs_text.mpr ⟨read, rfl⟩))
    apply (retarget_onlyFull _ _ _ fits).bind
    intro target grown _
    exact onlyFull_replace index _
  · exact onlyFull_pure _

theorem classConstant_textsStand (sound : before.Sound) (stand : before.pool.TextsStand)
    (run : Runs (renamer.classConstant index) before () after) : after.pool.TextsStand := by
  rcases classConstant_cases run with ⟨-, rfl⟩ |
    ⟨name, text, target, grown, stands, read, retargeted, rfl⟩
  · exact stand
  · exact retarget_textsStand sound stand stands rfl read retargeted rfl

theorem nameAndTypeConstant_onlyFull (fits : before.pool.Fits) (stand : before.pool.TextsStand) :
    OnlyFull (renamer.nameAndTypeConstant known index) before := by
  apply onlyFull_after (runs_constant?.mpr ⟨rfl, rfl⟩)
  split
  · rename_i name descriptor stands
    obtain ⟨text, read⟩ := stand index _ stands descriptor rfl
    apply onlyFull_after (runs_inContext.mpr (runs_text.mpr ⟨read, rfl⟩))
    apply (retarget_onlyFull _ _ _ fits).bind
    intro target grown _
    split
    · split
      · exact onlyFull_modify (onlyFull_replace index _)
      · exact onlyFull_replace index _
    · exact onlyFull_pure _
  · exact onlyFull_pure _

theorem nameAndTypeConstant_textsStand (sound : before.Sound) (stand : before.pool.TextsStand)
    (run : Runs (renamer.nameAndTypeConstant known index) before () after) :
    after.pool.TextsStand := by
  rcases nameAndTypeConstant_cases run with ⟨-, rfl⟩ |
    ⟨name, descriptor, text, target, grown, stands, read, retargeted, ended⟩
  · exact stand
  · rcases ended with ⟨-, rfl⟩ | ⟨-, rfl⟩
    · exact (retarget_adds sound retargeted).textsStand stand
    · exact retarget_textsStand sound stand stands rfl read retargeted rfl

theorem reference_onlyFull {kind : MemberKind} {owner pair : UInt16} (sound : before.Sound)
    (stand : before.pool.TextsStand) (isClass : before.pool.IsClass owner)
    {texts : String × String} (noted : known.get? pair = some texts) :
    OnlyFull (renamer.reference known inside kind owner pair) before := by
  obtain ⟨ownerText, ownerRead⟩ := stand.className isClass
  apply onlyFull_after (runs_className.mpr ⟨ownerRead, rfl⟩)
  dsimp only
  rw [noted]
  dsimp only
  split
  · exact onlyFull_pure _
  · exact onlyFull_modify (internPair_onlyFull _ _ (sound.with_notices _))

theorem referenceConstant_onlyFull (sound : before.Sound) (stand : before.pool.TextsStand)
    (answers : ∀ kind owner pair, before.pool.get? index = some (.memberRef kind owner pair) →
      before.pool.IsClass owner ∧ ∃ texts, known.get? pair = some texts) :
    OnlyFull (renamer.referenceConstant known inside index) before := by
  apply onlyFull_after (runs_constant?.mpr ⟨rfl, rfl⟩)
  split
  · rename_i kind owner pair stands
    obtain ⟨isClass, texts, noted⟩ := answers kind owner pair stands
    apply ((reference_onlyFull sound stand isClass noted).inContext _).bind
    intro target grown _
    exact onlyFull_replace index _
  · rename_i descriptor stands
    have readable := stand index _ stands descriptor rfl
    apply ((descriptorAt_onlyFull sound.fits readable).inContext _).bind
    intro target grown _
    exact onlyFull_replace index _
  · exact onlyFull_pure _

theorem reference_textsStand {kind : MemberKind} {owner pair target : UInt16}
    (sound : before.Sound) (stand : before.pool.TextsStand)
    (run : Runs (renamer.reference known inside kind owner pair) before target after) :
    before.pool.Extends after.pool ∧ after.pool.TextsStand := by
  obtain ⟨_, _, _, _, _, -, -, -, -, ⟨-, -, rfl⟩ | ⟨-, notices, interned⟩⟩ := reference_cases run
  · exact ⟨extends_refl _, stand⟩
  · have noticed := sound.with_notices notices
    exact ⟨(internPair_sound noticed interned).2.1, internPair_textsStand noticed stand interned⟩

theorem referenceConstant_textsStand (sound : before.Sound) (stand : before.pool.TextsStand)
    (run : Runs (renamer.referenceConstant known inside index) before () after) :
    after.pool.TextsStand := by
  rcases referenceConstant_cases run with ⟨-, -, rfl⟩ |
    ⟨kind, owner, pair, target, grown, stands, referenced, rfl⟩ |
    ⟨descriptor, target, grown, stands, described, rfl⟩
  · exact stand
  · obtain ⟨extended, grownStand⟩ := reference_textsStand sound stand referenced
    exact grownStand.replace (extended index _ rfl stands) rfl nofun
  · obtain ⟨text, read, retargeted⟩ := descriptorAt_cases described
    exact retarget_textsStand sound stand stands rfl read retargeted rfl

variable {old : Pool}

section Passes

variable (legible : ∀ constant ∈ old.constants, ∀ site ∈ constant.sites, old.LegibleAt site)

include legible

theorem textsStand_of_legible : old.TextsStand := by
  intro index constant stands place wanted
  have here := legible constant (mem_constants stands)
  cases constant with
  | className name =>
      cases wanted
      exact here (.className place) List.mem_cons_self
  | nameAndType name descriptor =>
      cases wanted
      exact here (.type place) List.mem_cons_self
  | methodType descriptor =>
      cases wanted
      exact here (.type place) List.mem_cons_self
  | _ => cases wanted

theorem pair?_of_legible {kind : MemberKind} {owner pair : UInt16}
    (stands : old.get? index = some (.memberRef kind owner pair)) :
    old.IsClass owner ∧ ∃ texts, old.pair? pair = some texts := by
  obtain ⟨isClass, constant, there, nameIndex, named, name, nameRead⟩ :=
    legible _ (mem_constants stands) (.reference kind owner pair) List.mem_cons_self
  refine ⟨isClass, ?_⟩
  cases constant with
  | nameAndType place descriptorIndex =>
      cases named
      obtain ⟨descriptor, descriptorRead⟩ :=
        textsStand_of_legible legible pair _ there descriptorIndex rfl
      exact ⟨(name, descriptor), pair?_eq_some_iff.mpr
        ⟨nameIndex, descriptorIndex, there, nameRead, descriptorRead⟩⟩
  | _ => cases named

/-- Renaming constants fails only for lack of room. -/
theorem constants_onlyFull (fits : old.Fits) :
    OnlyFull (renamer.constants inside) (.ofPool old) := by
  have positive : 0 < old.nextIndex.toNat := by
    rw [toNat_nextIndex fits]
    omega
  apply onlyFull_after (runs_get.mpr ⟨rfl, rfl⟩)
  -- descriptors do not change in the first pass, so it stays at the first index
  apply forIndices_bind_onlyFull (fun _ editing => Ready renamer old 1 editing ∧
    editing.pool.TextsStand ∧ old.GrowsInto editing.pool) ?_ ?_ positive ?_ ?_
  · rintro index editing - ⟨ready, stand, -⟩
    exact classConstant_onlyFull ready.tracked.sound.fits stand
  · rintro index editing later - ⟨ready, stand, grown⟩ run
    exact ⟨ready.classConstant run, classConstant_textsStand ready.tracked.sound stand run,
      growsInto_trans grown (classConstant_grows index _ _ _ run)⟩
  · exact ⟨ready_ofPool renamer fits, textsStand_of_legible legible, growsInto_refl old⟩
  rintro classes afterClasses
  apply forIndices_bind_onlyFull (fun next editing => Ready renamer old next editing ∧
    editing.pool.TextsStand ∧ old.GrowsInto editing.pool) ?_ ?_ positive afterClasses ?_
  · rintro index editing - ⟨ready, stand, -⟩
    exact nameAndTypeConstant_onlyFull ready.tracked.sound.fits stand
  · rintro index editing later below ⟨ready, stand, grown⟩ run
    exact ⟨ready.nameAndTypeConstant (UInt16.lt_iff_toNat_lt.mpr below) run,
      nameAndTypeConstant_textsStand ready.tracked.sound stand run,
      growsInto_trans grown (nameAndTypeConstant_grows index _ _ _ run)⟩
  rintro descriptors ⟨ready, stand, grown⟩
  apply forIndices_onlyFull (fun next editing =>
    Sharing renamer old descriptors.interner.pairs next editing ∧ editing.pool.TextsStand ∧
      old.GrowsInto editing.pool) ?_ ?_ ⟨ready.sharing, stand, grown⟩
  · rintro index editing - ⟨sharing, stand, grown⟩
    apply referenceConstant_onlyFull sharing.settled.sound stand
    -- references ahead are those of the old pool, and their owners are class constants still
    intro kind owner pair there
    obtain ⟨isClass, texts, noted⟩ := pair?_of_legible legible
      ((sharing.ahead index kind owner pair (Nat.le_refl _)).mp there)
    exact ⟨grown.isClass isClass, texts, (get?_namesAndTypes fits pair).trans noted⟩
  · rintro index editing later - ⟨sharing, stand, grown⟩ run
    exact ⟨sharing.referenceConstant fits run,
      referenceConstant_textsStand sharing.settled.sound stand run,
      growsInto_trans grown (referenceConstant_grows index _ _ _ run)⟩

end Passes

end Constants

end Renamer

end Deobfuscation
