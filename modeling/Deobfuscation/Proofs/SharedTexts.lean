import Deobfuscation.Proofs.EditSteps
import Deobfuscation.Proofs.PoolPasses

/-!
Texts are added once. The table of texts knows every text of the pool, so a text is added only if
no index has it. This holds from the first state of an edit on, and with it that no text behind
the old end of the pool stands anywhere else.
-/

namespace Deobfuscation

open Edit Pool

def Constant.isNoText : Constant → Bool
  | .utf8 _ => false
  | _ => true

theorem Pool.text_push {pool grown : Pool} {text : String} {index : UInt16} (fits : pool.Fits)
    (pushed : pool.push (.utf8 (Text.ModifiedUtf8.encode text)) = .ok (index, grown))
    {place : UInt16} {read : String} (reads : grown.text place = .ok read) :
    place = index ∧ read = text ∨ pool.text place = .ok read := by
  obtain ⟨bytes, stands, decoded⟩ := text_eq_ok_iff.mp reads
  rcases get?_of_push fits rfl pushed stands with ⟨here, same⟩ | earlier
  · cases same
    rw [Text.ModifiedUtf8.decode_encode] at decoded
    cases decoded
    exact Or.inl ⟨here, rfl⟩
  · exact Or.inr (text_eq_ok_iff.mpr ⟨bytes, earlier, decoded⟩)

/-- Every text of the pool is filed, and texts from an index on can be read and stand nowhere
else. -/
structure Editing.TextsOnce (start : UInt16) (editing : Editing) : Prop where
  filed : ∀ index text, editing.pool.text index = .ok text →
    ∃ place, editing.interner.texts.get? text = some place
  readable : ∀ added bytes, start ≤ added → editing.pool.get? added = some (.utf8 bytes) →
    ∃ text, editing.pool.text added = .ok text
  once : ∀ added other text, start ≤ added → editing.pool.text added = .ok text →
    editing.pool.text other = .ok text → other = added

namespace Editing.TextsOnce

variable {start : UInt16} {before after : Editing}

theorem ofPool {pool : Pool} (fits : pool.Fits) :
    (Editing.ofPool pool).TextsOnce pool.nextIndex := by
  have nothing : ∀ added, pool.nextIndex ≤ added → (Editing.ofPool pool).pool.get? added = none :=
    fun added behind => get?_of_nextIndex_le fits behind
  constructor
  · intro index text reads
    exact Table.find_of_mem ((Interner.mem_texts_ofPool fits).mpr reads)
  · intro added bytes behind stands
    rw [nothing added behind] at stands
    cases stands
  · intro added other text behind reads
    obtain ⟨bytes, stands, -⟩ := text_eq_ok_iff.mp reads
    rw [nothing added behind] at stands
    cases stands

theorem of_keeps (once : before.TextsOnce start) (stays : after.pool.KeepsTexts before.pool)
    (sameTexts : after.interner.texts = before.interner.texts) : after.TextsOnce start := by
  constructor
  · intro index text reads
    rw [sameTexts]
    exact once.filed index text (stays.text reads)
  · intro added bytes behind stands
    have earlier := stays added _ rfl stands
    obtain ⟨text, reads⟩ := once.readable added bytes behind earlier
    obtain ⟨others, there, decoded⟩ := text_eq_ok_iff.mp reads
    rw [earlier] at there
    cases there
    exact ⟨text, text_eq_ok_iff.mpr ⟨bytes, stands, decoded⟩⟩
  · intro added other text behind reads otherReads
    exact once.once added other text behind (stays.text reads) (stays.text otherReads)

theorem internText (once : before.TextsOnce start) (fits : before.pool.Fits) {text : String}
    {index : UInt16} (run : Runs (internText text) before index after) :
    after.TextsOnce start := by
  rcases runs_internText run with ⟨-, rfl⟩ | ⟨unknown, pool, pushed, rfl⟩
  · exact once
  · have fresh : ∀ place, before.pool.text place ≠ .ok text := by
      intro place reads
      obtain ⟨other, filed⟩ := once.filed place text reads
      rw [unknown] at filed
      cases filed
    constructor
    · intro place read reads
      simp only [Bindings.get?_bind]
      split
      · exact ⟨index, rfl⟩
      · rename_i different
        rcases text_push fits pushed reads with ⟨-, same⟩ | earlier
        · exact absurd same.symm different
        · exact once.filed place read earlier
    · intro added bytes behind stands
      obtain ⟨-, grown, last⟩ := push_grows fits rfl pushed
      rcases get?_of_push fits rfl pushed stands with ⟨rfl, -⟩ | earlier
      · exact ⟨text, text_eq_ok_iff.mpr ⟨_, last, Text.ModifiedUtf8.decode_encode text⟩⟩
      · obtain ⟨read, reads⟩ := once.readable added bytes behind earlier
        exact ⟨read, grown.text reads⟩
    · intro added other read behind reads otherReads
      rcases text_push fits pushed reads with ⟨rfl, rfl⟩ | earlier
      · rcases text_push fits pushed otherReads with ⟨same, -⟩ | otherEarlier
        · exact same
        · exact absurd otherEarlier (fresh other)
      · rcases text_push fits pushed otherReads with ⟨-, rfl⟩ | otherEarlier
        · exact absurd earlier (fresh added)
        · exact once.once added other read behind earlier otherEarlier

end Editing.TextsOnce

/-- From one state to the other, texts are added that were nowhere before, and nothing else. -/
structure Editing.AddsTexts (before after : Editing) : Prop where
  sound : after.Sound
  extended : before.pool.Extends after.pool
  others : after.pool.Keeps Constant.isNoText before.pool
  size : before.pool.slots.size ≤ after.pool.slots.size
  pairs : after.interner.pairs = before.interner.pairs
  once : ∀ start, before.TextsOnce start → after.TextsOnce start

section Adding

variable {before after : Editing}

theorem Editing.addsTexts_refl {editing : Editing} (sound : editing.Sound) :
    editing.AddsTexts editing :=
  ⟨sound, extends_refl _, keeps_refl _ _, Nat.le_refl _, rfl, fun _ once => once⟩

theorem Editing.AddsTexts.trans {first second third : Editing}
    (earlier : first.AddsTexts second) (later : second.AddsTexts third) :
    first.AddsTexts third where
  sound := later.sound
  extended := extends_trans earlier.extended later.extended
  others := keeps_trans later.others earlier.others
  size := Nat.le_trans earlier.size later.size
  pairs := later.pairs.trans earlier.pairs
  once start once := later.once start (earlier.once start once)

theorem Edit.internText_adds {text : String} {index : UInt16} (sound : before.Sound)
    (run : Runs (internText text) before index after) : before.AddsTexts after := by
  obtain ⟨afterSound, extended, -, samePairs⟩ := internText_sound sound run
  refine ⟨afterSound, extended, ?_, ?_, samePairs, fun _ once => once.internText sound.fits run⟩
  · rcases runs_internText run with ⟨-, rfl⟩ | ⟨-, pool, pushed, rfl⟩
    · exact keeps_refl _ _
    · exact keeps_of_push _ sound.fits rfl rfl pushed
  · rcases runs_internText run with ⟨-, rfl⟩ | ⟨-, pool, pushed, rfl⟩
    · exact Nat.le_refl _
    · obtain ⟨-, -, rfl⟩ := push_slots sound.fits rfl pushed
      simp

/-- Whatever looks up texts and takes notes adds texts only. -/
theorem Edit.lasting_adds :
    Lasting fun before after => before.Sound → before.AddsTexts after where
  refl _ sound := Editing.addsTexts_refl sound
  trans earlier later sound := (earlier sound).trans (later (earlier sound).sound)
  noted notice := by
    intro before item after run sound
    rw [runs_note.mp run]
    exact ⟨sound.with_notices _, extends_refl _, keeps_refl _ _, Nat.le_refl _, rfl,
      fun _ once => once.of_keeps (keeps_refl _ _) rfl⟩
  interned text := fun _ _ _ run sound => internText_adds sound run

theorem Edit.retarget_adds {old new : String} {index target : UInt16} (sound : before.Sound)
    (run : Runs (retarget index old new) before target after) : before.AddsTexts after :=
  lasting_adds.retarget index old new _ _ _ run sound

end Adding

end Deobfuscation
