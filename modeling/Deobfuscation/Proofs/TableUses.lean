import Deobfuscation.Proofs.ConstantRenaming

/-!
All uses of the tables of an edit. Texts and pairs are looked up or added and names and types get
other descriptors, in any order and as often as one likes, and some of it fails because the pool is
full. The tables stay sound all the time, and nothing that was added or found before is changed by
looking up or adding something else.
-/

namespace Deobfuscation

inductive TableUse where
  | text (text : String)
  | pair (name descriptor : String)
  /-- The name and type at the index gets the descriptor at the target. -/
  | redescribe (index target : UInt16)

namespace Editing

/-- A name and type that denotes a pair gets a descriptor with another text, and the tables are
told. Where this can not be done, all stays as it is. -/
def redescribe (editing : Editing) (index target : UInt16) : Editing :=
  match editing.pool.get? index, editing.pool.pair? index, editing.pool.text target with
  | some (.nameAndType name _), some (nameText, old), .ok new =>
      if old = new then editing
      else { editing with
        pool := editing.pool.replace index (.nameAndType name target)
        interner := editing.interner.moved index nameText old new }
  | _, _, _ => editing

def apply (editing : Editing) : TableUse → Editing
  | .text text => (Edit.internText text editing).2
  | .pair name descriptor => (Edit.internPair name descriptor editing).2
  | .redescribe index target => editing.redescribe index target

/-- Every constant stays at its index, and what is filed stays filed where it is. -/
structure Retains (before after : Editing) : Prop where
  pool : before.pool.Extends after.pool
  texts : ∀ text index, before.interner.texts.get? text = some index →
    after.interner.texts.get? text = some index
  pairs : ∀ pair index, before.interner.pairs.get? pair = some index →
    after.interner.pairs.get? pair = some index

theorem retains_refl (editing : Editing) : editing.Retains editing :=
  ⟨Pool.extends_refl _, fun _ _ filed => filed, fun _ _ filed => filed⟩

theorem Retains.trans {first second third : Editing} (earlier : first.Retains second)
    (later : second.Retains third) : first.Retains third where
  pool := Pool.extends_trans earlier.pool later.pool
  texts text index filed := later.texts text index (earlier.texts text index filed)
  pairs pair index filed := later.pairs pair index (earlier.pairs pair index filed)

end Editing

namespace Edit

open Pool

section Failing

variable {before after : Editing} {failure : Failure}

@[simp] theorem fails_inContext {Item : Type} {context : Context} {edit : Edit Item} :
    Fails (inContext context edit) before failure after ↔
      ∃ inner, Fails edit before inner after ∧ inner.within context = failure := fails_adapt

theorem push_fails {constant : Constant}
    (failed : Fails (Edit.push constant) before failure after) : after = before := by
  simp only [Edit.push, fails_bind, not_fails_get, false_or, runs_get] at failed
  obtain ⟨_, _, ⟨rfl, rfl⟩, failed⟩ := failed
  split at failed
  · exact (fails_throw.mp failed).2
  · simp only [fails_bind, not_fails_set, not_fails_pure, and_false, exists_false,
      or_false] at failed

/-- A text that can not be added leaves nothing behind. -/
theorem internText_fails {text : String} (failed : Fails (internText text) before failure after) :
    after = before := by
  simp only [internText, fails_bind, not_fails_get, false_or, runs_get] at failed
  obtain ⟨_, _, ⟨rfl, rfl⟩, failed⟩ := failed
  split at failed
  · simp at failed
  · simp only [fails_bind, fails_inContext, not_fails_modify, not_fails_pure, and_false,
      exists_false, or_false] at failed
    obtain ⟨inner, refused, -⟩ := failed
    exact push_fails refused

theorem internPair_fails {name descriptor : String}
    (failed : Fails (internPair name descriptor) before failure after) :
    after = before ∨ ∃ nameIndex named, Runs (internText name) before nameIndex named ∧
      (after = named ∨
        ∃ descriptorIndex, Runs (internText descriptor) named descriptorIndex after) := by
  simp only [internPair, fails_bind, not_fails_get, false_or, runs_get] at failed
  obtain ⟨_, _, ⟨rfl, rfl⟩, failed⟩ := failed
  split at failed
  · simp at failed
  simp only [fails_bind, fails_inContext, not_fails_modify, not_fails_pure, and_false,
    exists_false, or_false] at failed
  rcases failed with nameFailed | ⟨nameIndex, named, nameRun, descriptorFailed |
    ⟨descriptorIndex, described, descriptorRun, inner, refused, -⟩⟩
  · exact Or.inl (internText_fails nameFailed)
  · exact Or.inr ⟨nameIndex, named, nameRun, Or.inl (internText_fails descriptorFailed)⟩
  · rw [push_fails refused]
    exact Or.inr ⟨nameIndex, named, nameRun, Or.inr ⟨descriptorIndex, descriptorRun⟩⟩

end Failing

section Retaining

variable {before after : Editing} {index : UInt16}

theorem internText_retains {text : String} (sound : before.Sound)
    (run : Runs (internText text) before index after) : before.Retains after := by
  obtain ⟨-, extended, -, -⟩ := internText_sound sound run
  rcases runs_internText run with ⟨-, rfl⟩ | ⟨unknown, pool, -, rfl⟩
  · exact Editing.retains_refl _
  · refine ⟨extended, ?_, fun _ _ filed => filed⟩
    intro wanted place filed
    rw [Bindings.get?_bind, if_neg, filed]
    rintro rfl
    rw [unknown] at filed
    cases filed

theorem internPair_retains {name descriptor : String} (sound : before.Sound)
    (run : Runs (internPair name descriptor) before index after) : before.Retains after := by
  rcases runs_internPair run with ⟨-, rfl⟩ |
    ⟨unknown, nameIndex, named, descriptorIndex, described, pool, nameRun, descriptorRun, pushed,
      rfl⟩
  · exact Editing.retains_refl _
  · obtain ⟨namedSound, -, -, namedPairs⟩ := internText_sound sound nameRun
    obtain ⟨describedSound, -, -, describedPairs⟩ := internText_sound namedSound descriptorRun
    have grown := (internText_retains sound nameRun).trans
      (internText_retains namedSound descriptorRun)
    obtain ⟨-, extended, -⟩ := push_grows describedSound.fits rfl pushed
    refine ⟨extends_trans grown.pool extended, grown.texts, ?_⟩
    intro wanted place filed
    rw [Bindings.get?_bind, if_neg, describedPairs, namedPairs, filed]
    rintro rfl
    rw [unknown] at filed
    cases filed

end Retaining

end Edit

namespace Editing

open Edit Pool

variable {editing : Editing}

theorem apply_text (sound : editing.Sound) (text : String) :
    (editing.apply (.text text)).Sound ∧ editing.Retains (editing.apply (.text text)) := by
  rcases result : internText text editing with ⟨failure | index, after⟩
  · simp only [apply, result]
    obtain rfl := internText_fails result
    exact ⟨sound, retains_refl _⟩
  · simp only [apply, result]
    exact ⟨(internText_sound sound result).1, internText_retains sound result⟩

theorem apply_pair (sound : editing.Sound) (name descriptor : String) :
    (editing.apply (.pair name descriptor)).Sound ∧
      editing.Retains (editing.apply (.pair name descriptor)) := by
  rcases result : internPair name descriptor editing with ⟨failure | index, after⟩
  · simp only [apply, result]
    rcases internPair_fails result with rfl | ⟨nameIndex, named, nameRun, left⟩
    · exact ⟨sound, retains_refl _⟩
    · have namedSound := (internText_sound sound nameRun).1
      have grown := internText_retains sound nameRun
      rcases left with rfl | ⟨descriptorIndex, descriptorRun⟩
      · exact ⟨namedSound, grown⟩
      · exact ⟨(internText_sound namedSound descriptorRun).1,
          grown.trans (internText_retains namedSound descriptorRun)⟩
  · simp only [apply, result]
    exact ⟨(internPair_sound sound result).1, internPair_retains sound result⟩

theorem redescribe_eq {index name descriptor target : UInt16} {nameText old new : String}
    (stands : editing.pool.get? index = some (.nameAndType name descriptor))
    (pair : editing.pool.pair? index = some (nameText, old))
    (read : editing.pool.text target = .ok new) (changed : old ≠ new) :
    editing.redescribe index target = { editing with
      pool := editing.pool.replace index (.nameAndType name target)
      interner := editing.interner.moved index nameText old new } := by
  simp only [redescribe, stands, pair, read, if_neg changed]

theorem redescribe_sound (sound : editing.Sound) (index target : UInt16) :
    (editing.redescribe index target).Sound := by
  unfold redescribe
  split
  · rename_i name descriptor nameText old new stands pair read
    split
    · exact sound
    · refine sound.replace stands read rfl ?_
      intro filed place found
      rcases sound.filed_moved pair found with ⟨rfl, rfl⟩ | elsewhere
      · obtain ⟨_, _, there, nameRead, -⟩ := pair?_eq_some_iff.mp pair
        rw [stands] at there
        cases there
        exact Or.inl ⟨rfl, nameRead, rfl⟩
      · exact Or.inr elsewhere
  · exact sound

theorem apply_sound (sound : editing.Sound) (use : TableUse) : (editing.apply use).Sound := by
  cases use with
  | text text => exact (apply_text sound text).1
  | pair name descriptor => exact (apply_pair sound name descriptor).1
  | redescribe index target => exact redescribe_sound sound index target

theorem foldl_apply_sound (sound : editing.Sound) (uses : List TableUse) :
    (uses.foldl apply editing).Sound := by
  induction uses generalizing editing with
  | nil => exact sound
  | cons use rest ih => exact ih (apply_sound sound use)

/-- The pass over names and types uses the tables in this way and no other, wherever a pair is
known. -/
theorem nameAndTypeConstant_uses {renamer : Renamer} {known : Bindings UInt16 (String × String)}
    {index : UInt16} {pair : String × String} {after : Editing}
    (tracked : Renamer.Tracked known editing) (noted : known.get? index = some pair)
    (run : Runs (renamer.nameAndTypeConstant known index) editing () after) :
    ∃ uses : List TableUse, after = uses.foldl apply editing := by
  rcases Renamer.nameAndTypeConstant_cases run with ⟨-, rfl⟩ |
    ⟨name, descriptor, text, target, grown, stands, read, retargeted, ended⟩
  · exact ⟨[], rfl⟩
  obtain ⟨grownSound, extended, targetRead, -⟩ := retarget_sound tracked.sound read retargeted
  unfold retarget at retargeted
  split at retargeted
  · -- the descriptor has no other text, so it stays
    obtain ⟨rfl, rfl⟩ := runs_pure.mp retargeted
    rcases ended with ⟨-, rfl⟩ | ⟨moved, -⟩
    · exact ⟨[], rfl⟩
    · exact absurd rfl moved
  rename_i changed
  have added : editing.apply (.text (renamer.signature text)) = grown :=
    congrArg Prod.snd retargeted
  rcases ended with ⟨-, rfl⟩ | ⟨-, rfl⟩
  · exact ⟨[.text (renamer.signature text)], added.symm⟩
  · have nameRead := tracked.name stands noted
    have standing : grown.pool.pair? index = some (pair.1, text) :=
      pair?_eq_some_iff.mpr ⟨name, descriptor, extended index _ rfl stands,
        extended.text nameRead, extended.text read⟩
    refine ⟨[.text (renamer.signature text), .redescribe index target], ?_⟩
    rw [List.foldl_cons, added, List.foldl_cons, List.foldl_nil, apply,
      redescribe_eq (extended index _ rfl stands) standing targetRead changed, Interner.told, noted]

/-- However the tables of a pool were used, each of their indices denotes the text or the pair that
it is filed under. Looking up or adding gives an index with what was asked for and changes nothing
that is there, even where it fails. Another descriptor changes one name and type only. -/
theorem tables_stay_exact {pool : Pool} (fits : pool.slots.size ≤ 65534) (uses : List TableUse) :
    let editing := uses.foldl apply (.ofPool pool)
    editing.Sound ∧
      (∀ text, editing.Retains (editing.apply (.text text)) ∧
        ∀ index after, Runs (internText text) editing index after →
          after = editing.apply (.text text) ∧ after.pool.text index = .ok text) ∧
      (∀ name descriptor, editing.Retains (editing.apply (.pair name descriptor)) ∧
        ∀ index after, Runs (internPair name descriptor) editing index after →
          after = editing.apply (.pair name descriptor) ∧
            after.pool.pair? index = some (name, descriptor)) ∧
      ∀ index target name old new, editing.pool.pair? index = some (name, old) →
        editing.pool.text target = .ok new → old ≠ new →
          (editing.apply (.redescribe index target)).pool.pair? index = some (name, new) ∧
            ∀ place, place ≠ index →
              (editing.apply (.redescribe index target)).pool.get? place =
                editing.pool.get? place := by
  intro editing
  have sound : editing.Sound := foldl_apply_sound (ofPool_sound fits) uses
  refine ⟨sound, ?_, ?_, ?_⟩
  · intro text
    refine ⟨(apply_text sound text).2, ?_⟩
    intro index after run
    exact ⟨(congrArg Prod.snd run).symm, (internText_sound sound run).2.2.1⟩
  · intro name descriptor
    refine ⟨(apply_pair sound name descriptor).2, ?_⟩
    intro index after run
    exact ⟨(congrArg Prod.snd run).symm, (internPair_sound sound run).2.2⟩
  · intro index target name old new standing read changed
    obtain ⟨nameIndex, descriptorIndex, stands, nameRead, -⟩ := pair?_eq_some_iff.mp standing
    have texts : editing.pool.KeepsTexts
        (editing.pool.replace index (.nameAndType nameIndex target)) := keeps_replace _ stands rfl _
    rw [apply, redescribe_eq stands standing read changed]
    exact ⟨pair?_eq_some_iff.mpr ⟨nameIndex, target, get?_replace_self stands _,
        texts.text nameRead, texts.text read⟩,
      fun place other => get?_replace_of_ne _ other _⟩

def twoTypes : Pool :=
  .ofList [.utf8 [0x61], .utf8 [0x49], .utf8 [0x4A], .nameAndType 1 2, .nameAndType 1 3]

/-- Two pairs swap their descriptors. The first one moves onto the second, so it is filed nowhere
when the second one leaves, and asking for it adds a third. -/
theorem tables_stay_exact_swapped :
    let uses : List TableUse := [.redescribe 4 3, .redescribe 5 2]
    let editing := uses.foldl apply (.ofPool twoTypes)
    twoTypes.slots.size ≤ 65534 ∧ editing.Sound ∧
      editing.interner.pairs.get? ("a", "I") = some 5 ∧
      editing.interner.pairs.get? ("a", "J") = none ∧
      ∃ after, Runs (internPair "a" "J") editing 6 after ∧
        after.pool.pair? 6 = some ("a", "J") ∧ after.pool.pair? 4 = some ("a", "J") := by
  intro uses editing
  have few : twoTypes.slots.size ≤ 65534 := by decide
  obtain ⟨sound, -, pairs, -⟩ := tables_stay_exact few uses
  have run : Runs (internPair "a" "J") editing 6 (editing.apply (.pair "a" "J")) := rfl
  obtain ⟨grown, answers⟩ := pairs "a" "J"
  refine ⟨few, sound, rfl, rfl, _, run, (answers 6 _ run).2, ?_⟩
  have standing : editing.pool.pair? 4 = some ("a", "J") := rfl
  exact grown.pool.pair? standing

end Editing

end Deobfuscation
