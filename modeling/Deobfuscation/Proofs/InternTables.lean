import Deobfuscation.Proofs.ClassNames
import Deobfuscation.Proofs.PoolGrowth
import Deobfuscation.Proofs.Runs

/-!
What the tables of an edit know. They are sound if every index they hold denotes, in the
pool of this moment, the text or pair it is filed under; looking up and adding keeps them
so and gives the wanted text, whatever was added before.
-/

namespace Deobfuscation

namespace Edit

variable {Item : Type} {before after : Editing}

@[simp] theorem runs_inContext {context : Context} {edit : Edit Item} {item : Item} :
    Runs (inContext context edit) before item after ↔ Runs edit before item after := runs_adapt

@[simp] theorem runs_note {notice : Notice} {item : Unit} :
    Runs (note notice) before item after ↔
      after = { before with notices := before.notices.push notice } := runs_modify

@[simp] theorem runs_replace {index : UInt16} {constant : Constant} {item : Unit} :
    Runs (replace index constant) before item after ↔
      after = { before with pool := before.pool.replace index constant } := runs_modify

@[simp] theorem runs_constant? {index : UInt16} {found : Option Constant} :
    Runs (constant? index) before found after ↔
      before.pool.get? index = found ∧ after = before := by
  simp only [constant?, runs_bind, runs_get, runs_pure]
  constructor
  · rintro ⟨_, _, ⟨rfl, rfl⟩, found, rfl⟩
    exact ⟨found, rfl⟩
  · rintro ⟨found, rfl⟩
    exact ⟨_, _, ⟨rfl, rfl⟩, found, rfl⟩

@[simp] theorem runs_text {index : UInt16} {result : String} :
    Runs (text index) before result after ↔
      before.pool.text index = .ok result ∧ after = before := by
  change ((before.pool.text index, before) : Except Failure String × Editing) = _ ↔ _
  simp [eq_comm]

@[simp] theorem runs_className {index : UInt16} {result : String} :
    Runs (className index) before result after ↔
      before.pool.className index = .ok result ∧ after = before := by
  change ((before.pool.className index, before) : Except Failure String × Editing) = _ ↔ _
  simp [eq_comm]

@[simp] theorem runs_push {constant : Constant} {index : UInt16} :
    Runs (push constant) before index after ↔
      ∃ pool, before.pool.push constant = .ok (index, pool) ∧ after = { before with pool } := by
  simp only [push, runs_bind, runs_get]
  constructor
  · rintro ⟨_, _, ⟨rfl, rfl⟩, run⟩
    split at run
    · exact absurd run runs_throw
    · rename_i given pool pushed
      simp only [runs_bind, runs_set, runs_pure] at run
      obtain ⟨_, _, rfl, rfl, rfl⟩ := run
      exact ⟨pool, pushed, rfl⟩
  · rintro ⟨pool, pushed, rfl⟩
    refine ⟨before, before, ⟨rfl, rfl⟩, ?_⟩
    rw [pushed]
    simp only [runs_bind, runs_set, runs_pure]
    exact ⟨(), _, rfl, trivial, rfl⟩

end Edit

/-- Every index of the tables denotes what it is filed under, and the pool has room for its
indices. -/
structure Editing.Sound (editing : Editing) : Prop where
  fits : editing.pool.Fits
  texts : ∀ text index, editing.interner.texts.get? text = some index →
    editing.pool.text index = .ok text
  pairs : ∀ pair index, editing.interner.pairs.get? pair = some index →
    editing.pool.pair? index = some pair

def Constant.isFiled : Constant → Bool
  | .utf8 _ | .nameAndType .. => true
  | _ => false

theorem Editing.Sound.of_keeps {editing : Editing} {pool : Pool} (sound : editing.Sound)
    (fits : pool.Fits) (stays : editing.pool.Keeps Constant.isFiled pool) :
    Editing.Sound { editing with pool } := by
  have texts : editing.pool.KeepsTexts pool := stays.texts fun _ => rfl
  refine ⟨fits, ?_, ?_⟩
  · intro text index found
    exact texts.text (sound.texts text index found)
  · intro pair index found
    exact texts.pair? stays (fun _ _ => rfl) (sound.pairs pair index found)

theorem Editing.Sound.with_notices {editing : Editing} (sound : editing.Sound)
    (notices : Array Notice) : Editing.Sound { editing with notices } :=
  ⟨sound.fits, sound.texts, sound.pairs⟩

namespace Interner

/-- The text that a constant is filed under. -/
def filedText (entry : UInt16 × Constant) : Option (String × UInt16) :=
  match entry.2 with
  | .utf8 bytes =>
      match Text.ModifiedUtf8.decode bytes with
      | .ok text => some (text, entry.1)
      | .error _ => none
  | _ => none

/-- The texts that a name and type is filed under. -/
def filedPair (pool : Pool) (entry : UInt16 × Constant) : Option ((String × String) × UInt16) :=
  match entry.2 with
  | .nameAndType name descriptor =>
      match pool.text name, pool.text descriptor with
      | .ok name, .ok descriptor => some ((name, descriptor), entry.1)
      | _, _ => none
  | _ => none

theorem filedText_eq_some_iff {entry : UInt16 × Constant} {text : String} {index : UInt16} :
    filedText entry = some (text, index) ↔
      index = entry.1 ∧ ∃ bytes, entry.2 = .utf8 bytes ∧
        Text.ModifiedUtf8.decode bytes = .ok text := by
  unfold filedText
  constructor
  · intro filed
    split at filed
    · rename_i bytes utf8
      split at filed
      · rename_i decoded same
        cases filed
        exact ⟨rfl, bytes, utf8, same⟩
      · cases filed
    · cases filed
  · rintro ⟨rfl, bytes, utf8, decoded⟩
    simp [utf8, decoded]

theorem filedPair_eq_some_iff {pool : Pool} {entry : UInt16 × Constant} {pair : String × String}
    {index : UInt16} :
    filedPair pool entry = some (pair, index) ↔
      index = entry.1 ∧ ∃ name descriptor, entry.2 = .nameAndType name descriptor ∧
        pool.text name = .ok pair.1 ∧ pool.text descriptor = .ok pair.2 := by
  unfold filedPair
  constructor
  · intro filed
    split at filed
    · rename_i name descriptor nameAndType
      split at filed
      · rename_i nameText descriptorText first second
        cases filed
        exact ⟨rfl, name, descriptor, nameAndType, first, second⟩
      · cases filed
    · cases filed
  · rintro ⟨rfl, name, descriptor, nameAndType, first, second⟩
    simp [nameAndType, first, second]

/-- The tables hold what the constants are filed under, the last one first. -/
theorem foldl_add (pool : Pool) (entries : List (UInt16 × Constant)) (interner : Interner) :
    entries.foldl (add pool) interner =
      { texts := ⟨(entries.filterMap filedText).reverse ++ interner.texts.newest⟩
        pairs := ⟨(entries.filterMap (filedPair pool)).reverse ++ interner.pairs.newest⟩ } := by
  induction entries generalizing interner with
  | nil => rfl
  | cons entry rest ih =>
      obtain ⟨index, constant⟩ := entry
      rw [List.foldl_cons, ih, List.filterMap_cons, List.filterMap_cons]
      cases constant with
      | utf8 bytes =>
          simp only [add, filedText, filedPair]
          cases Text.ModifiedUtf8.decode bytes <;> simp [Bindings.bind]
      | nameAndType name descriptor =>
          simp only [add, filedText, filedPair]
          cases pool.text name <;> cases pool.text descriptor <;> simp [Bindings.bind]
      | _ => rfl

theorem ofPool_eq (pool : Pool) : ofPool pool =
    { texts := ⟨(pool.entries.filterMap filedText).reverse⟩
      pairs := ⟨(pool.entries.filterMap (filedPair pool)).reverse⟩ } := by
  simp [ofPool, foldl_add, Bindings.empty]

theorem mem_texts_ofPool {pool : Pool} (fits : pool.Fits) {text : String} {index : UInt16} :
    (text, index) ∈ (ofPool pool).texts.newest ↔ pool.text index = .ok text := by
  rw [ofPool_eq, List.mem_reverse, List.mem_filterMap, Pool.text_eq_ok_iff]
  constructor
  · rintro ⟨⟨place, constant⟩, inside, filed⟩
    obtain ⟨rfl, bytes, rfl, decoded⟩ := filedText_eq_some_iff.mp filed
    exact ⟨bytes, (Pool.mem_entries_iff fits).mp inside, decoded⟩
  · rintro ⟨bytes, stands, decoded⟩
    exact ⟨(index, .utf8 bytes), (Pool.mem_entries_iff fits).mpr stands,
      filedText_eq_some_iff.mpr ⟨rfl, bytes, rfl, decoded⟩⟩

/-- The pairs that are filed are those of the pool. -/
theorem exists_filedPair_iff {pool : Pool} (fits : pool.Fits) {pair : String × String}
    {index : UInt16} :
    (∃ entry ∈ pool.entries, filedPair pool entry = some (pair, index)) ↔
      pool.pair? index = some pair := by
  rw [Pool.pair?_eq_some_iff]
  constructor
  · rintro ⟨⟨place, constant⟩, inside, filed⟩
    obtain ⟨rfl, name, descriptor, rfl, first, second⟩ := filedPair_eq_some_iff.mp filed
    exact ⟨name, descriptor, (Pool.mem_entries_iff fits).mp inside, first, second⟩
  · rintro ⟨name, descriptor, stands, first, second⟩
    exact ⟨(index, .nameAndType name descriptor), (Pool.mem_entries_iff fits).mpr stands,
      filedPair_eq_some_iff.mpr ⟨rfl, name, descriptor, rfl, first, second⟩⟩

theorem mem_pairs_ofPool {pool : Pool} (fits : pool.Fits) {pair : String × String}
    {index : UInt16} :
    (pair, index) ∈ (ofPool pool).pairs.newest ↔ pool.pair? index = some pair := by
  rw [ofPool_eq, List.mem_reverse, List.mem_filterMap]
  exact exists_filedPair_iff fits

/-- After a pair moved, it is filed under its new texts or not at all. -/
theorem get?_moved {interner : Interner} {index place : UInt16} {name old new : String}
    {key : String × String}
    (filed : (interner.moved index name old new).pairs.get? key = some place) :
    key = (name, new) ∧ place = index ∨
      interner.pairs.get? key = some place ∧ ¬ (key = (name, old) ∧ place = index) := by
  -- what is left of the table does not have the pair under its old texts
  have earlier : ∀ found, (if interner.pairs.get? (name, old) = some index then
      interner.pairs.forget (name, old) else interner.pairs).get? key = some found →
      interner.pairs.get? key = some found ∧ ¬ (key = (name, old) ∧ found = index) := by
    intro found present
    split at present
    · rw [Bindings.get?_forget] at present
      split at present
      · cases present
      · rename_i different
        exact ⟨present, fun both => different both.1.symm⟩
    · rename_i elsewhere
      refine ⟨present, ?_⟩
      rintro ⟨rfl, rfl⟩
      exact elsewhere present
  simp only [moved] at filed
  generalize (if interner.pairs.get? (name, old) = some index then
    interner.pairs.forget (name, old) else interner.pairs) = kept at earlier filed
  split at filed
  · exact Or.inr (earlier place filed)
  · rw [Bindings.get?_bind] at filed
    split at filed
    · rename_i same
      cases filed
      exact Or.inl ⟨same.symm, rfl⟩
    · exact Or.inr (earlier place filed)

end Interner

section Moving

variable {editing : Editing} {index place : UInt16} {pair : String × String}

/-- Once a pair moved, the sound tables have its index under the new texts only. All others are
filed where they were. -/
theorem Editing.Sound.filed_moved (sound : editing.Sound) {name old new : String}
    (stands : editing.pool.pair? index = some (name, old))
    (found : (editing.interner.moved index name old new).pairs.get? pair = some place) :
    pair = (name, new) ∧ place = index ∨
      place ≠ index ∧ editing.interner.pairs.get? pair = some place := by
  rcases Interner.get?_moved found with here | ⟨present, notMoved⟩
  · exact Or.inl here
  · refine Or.inr ⟨?_, present⟩
    rintro rfl
    -- at this index the tables could only hold the pair that was moved
    have there := sound.pairs pair place present
    rw [stands] at there
    cases there
    exact notMoved ⟨rfl, rfl⟩

/-- A name and type gets another descriptor. The tables stay sound if they have its index under
the texts that it has now, or under none. -/
theorem Editing.Sound.replace (sound : editing.Sound) {name descriptor target : UInt16}
    {new : String} {interner : Interner}
    (stands : editing.pool.get? index = some (.nameAndType name descriptor))
    (read : editing.pool.text target = .ok new)
    (sameTexts : interner.texts = editing.interner.texts)
    (filed : ∀ pair place, interner.pairs.get? pair = some place →
      (place = index ∧ editing.pool.text name = .ok pair.1 ∧ pair.2 = new) ∨
        (place ≠ index ∧ editing.interner.pairs.get? pair = some place)) :
    Editing.Sound { editing with
      pool := editing.pool.replace index (.nameAndType name target)
      interner } := by
  have texts : editing.pool.KeepsTexts
      (editing.pool.replace index (.nameAndType name target)) := Pool.keeps_replace _ stands rfl _
  refine ⟨Pool.fits_replace sound.fits _ _, ?_, ?_⟩
  · intro wanted place found
    rw [sameTexts] at found
    exact texts.text (sound.texts wanted place found)
  · intro pair place found
    rcases filed pair place found with ⟨rfl, nameRead, rfl⟩ | ⟨other, present⟩
    · exact Pool.pair?_eq_some_iff.mpr
        ⟨name, target, Pool.get?_replace_self stands _, texts.text nameRead, texts.text read⟩
    · exact Pool.pair?_replace_of_ne other texts (sound.pairs pair place present)

end Moving

theorem Editing.ofPool_sound {pool : Pool} (fits : pool.Fits) :
    (Editing.ofPool pool).Sound where
  fits := fits
  texts _ _ found := (Interner.mem_texts_ofPool fits).mp (Table.mem_of_find found)
  pairs _ _ found := (Interner.mem_pairs_ofPool fits).mp (Table.mem_of_find found)

namespace Edit

section Interning

variable {before after : Editing}

theorem runs_internText {text : String} {index : UInt16}
    (run : Runs (internText text) before index after) :
    before.interner.texts.get? text = some index ∧ after = before ∨
      before.interner.texts.get? text = none ∧
      ∃ pool, before.pool.push (.utf8 (Text.ModifiedUtf8.encode text)) = .ok (index, pool) ∧
        after = { before with
          pool
          interner.texts := before.interner.texts.bind text index } := by
  simp only [internText, runs_bind, runs_get] at run
  obtain ⟨_, _, ⟨rfl, rfl⟩, run⟩ := run
  split at run
  · rename_i found known
    obtain ⟨rfl, rfl⟩ := runs_pure.mp run
    exact Or.inl ⟨known, rfl⟩
  · rename_i unknown
    simp only [runs_bind, runs_inContext, runs_push, runs_modify, runs_pure] at run
    obtain ⟨_, _, ⟨pool, pushed, rfl⟩, _, _, rfl, rfl, rfl⟩ := run
    exact Or.inr ⟨unknown, pool, pushed, rfl⟩

theorem runs_internPair {name descriptor : String} {index : UInt16}
    (run : Runs (internPair name descriptor) before index after) :
    before.interner.pairs.get? (name, descriptor) = some index ∧ after = before ∨
      before.interner.pairs.get? (name, descriptor) = none ∧
      ∃ nameIndex named descriptorIndex described pool,
        Runs (internText name) before nameIndex named ∧
        Runs (internText descriptor) named descriptorIndex described ∧
        described.pool.push (.nameAndType nameIndex descriptorIndex) = .ok (index, pool) ∧
        after = { described with
          pool
          interner.pairs := described.interner.pairs.bind (name, descriptor) index } := by
  simp only [internPair, runs_bind, runs_get] at run
  obtain ⟨_, _, ⟨rfl, rfl⟩, run⟩ := run
  split at run
  · rename_i found known
    obtain ⟨rfl, rfl⟩ := runs_pure.mp run
    exact Or.inl ⟨known, rfl⟩
  · rename_i unknown
    simp only [runs_bind, runs_inContext, runs_push, runs_modify, runs_pure] at run
    obtain ⟨nameIndex, named, nameRun, descriptorIndex, described, descriptorRun, added, _,
      ⟨pool, pushed, rfl⟩, _, _, rfl, rfl, rfl⟩ := run
    exact Or.inr ⟨unknown, nameIndex, named, descriptorIndex, described, pool, nameRun,
      descriptorRun, pushed, rfl⟩

theorem internText_sound {text : String} {index : UInt16} (sound : before.Sound)
    (run : Runs (internText text) before index after) :
    after.Sound ∧ before.pool.Extends after.pool ∧ after.pool.text index = .ok text ∧
      after.interner.pairs = before.interner.pairs := by
  rcases runs_internText run with ⟨known, rfl⟩ | ⟨-, pool, pushed, rfl⟩
  · exact ⟨sound, Pool.extends_refl _, sound.texts text index known, rfl⟩
  · obtain ⟨fits, grown, stands⟩ := Pool.push_grows sound.fits rfl pushed
    -- the bytes that are added are those of the text, so it is read back from them
    have read : pool.text index = .ok text :=
      Pool.text_eq_ok_iff.mpr ⟨_, stands, Text.ModifiedUtf8.decode_encode text⟩
    refine ⟨⟨fits, ?_, ?_⟩, grown, read, rfl⟩
    · intro wanted place found
      simp only [Bindings.get?_bind] at found
      split at found
      · rename_i same
        cases found
        exact same ▸ read
      · exact grown.text (sound.texts wanted place found)
    · intro pair place found
      exact grown.pair? (sound.pairs pair place found)

theorem retarget_sound {old new : String} {index target : UInt16} (sound : before.Sound)
    (read : before.pool.text index = .ok old)
    (run : Runs (retarget index old new) before target after) :
    after.Sound ∧ before.pool.Extends after.pool ∧ after.pool.text target = .ok new ∧
      after.interner.pairs = before.interner.pairs := by
  unfold retarget at run
  split at run
  · rename_i same
    obtain ⟨rfl, rfl⟩ := runs_pure.mp run
    exact ⟨sound, Pool.extends_refl _, same ▸ read, rfl⟩
  · exact internText_sound sound run

/-- Looking up or adding a pair gives an index with this pair. -/
theorem internPair_sound {name descriptor : String} {index : UInt16} (sound : before.Sound)
    (run : Runs (internPair name descriptor) before index after) :
    after.Sound ∧ before.pool.Extends after.pool ∧
      after.pool.pair? index = some (name, descriptor) := by
  rcases runs_internPair run with ⟨known, rfl⟩ |
    ⟨-, nameIndex, named, descriptorIndex, described, pool, nameRun, descriptorRun, pushed, rfl⟩
  · exact ⟨sound, Pool.extends_refl _, sound.pairs _ _ known⟩
  · obtain ⟨namedSound, namedGrown, nameText, -⟩ := internText_sound sound nameRun
    obtain ⟨soundBefore, describedGrown, descriptorText, -⟩ :=
      internText_sound namedSound descriptorRun
    obtain ⟨fits, grown, stands⟩ := Pool.push_grows soundBefore.fits rfl pushed
    have pair : pool.pair? index = some (name, descriptor) :=
      Pool.pair?_eq_some_iff.mpr ⟨nameIndex, descriptorIndex, stands,
        grown.text (describedGrown.text nameText), grown.text descriptorText⟩
    refine ⟨⟨fits, ?_, ?_⟩,
      Pool.extends_trans namedGrown (Pool.extends_trans describedGrown grown), pair⟩
    · intro text place found
      exact grown.text (soundBefore.texts text place found)
    · intro wanted place found
      simp only [Bindings.get?_bind] at found
      split at found
      · rename_i same
        cases found
        exact same ▸ pair
      · exact grown.pair? (soundBefore.pairs wanted place found)

end Interning

end Edit

end Deobfuscation
