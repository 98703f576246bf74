import Deobfuscation.Renaming.Constants
import Deobfuscation.Proofs.TextRoundTrip

/-!
How the contents of a pool move on. A pool is seen through the constants, texts, class
names and pairs at its indices. Adding constants keeps all of these, and replacing
constants that are no texts keeps the texts. As long as the count of a pool fits its 16
bits, indices and slots are the same.
-/

namespace Deobfuscation.Pool

open Text

/-- The next index, which is the count in a class file, has 16 bits. -/
def Fits (pool : Pool) : Prop := pool.slots.size ≤ 65534

instance (pool : Pool) : Decidable pool.Fits := inferInstanceAs (Decidable (_ ≤ _))

def pair? (pool : Pool) (index : UInt16) : Option (String × String) :=
  match pool.get? index with
  | some (.nameAndType name descriptor) =>
      match pool.text name, pool.text descriptor with
      | .ok name, .ok descriptor => some (name, descriptor)
      | _, _ => none
  | _ => none

/-- Constants of the given kinds stay where they are. -/
def Keeps (kept : Constant → Bool) (before after : Pool) : Prop :=
  ∀ index constant, kept constant = true → before.get? index = some constant →
    after.get? index = some constant

def Extends : Pool → Pool → Prop := Keeps fun _ => true

/-- All texts stay where they are. -/
def KeepsTexts : Pool → Pool → Prop := Keeps fun
  | .utf8 _ => true
  | _ => false

section Views

variable {pool : Pool}

theorem get?_eq_some_iff {index : UInt16} {constant : Constant} :
    pool.get? index = some constant ↔
      0 < index.toNat ∧ pool.slots[index.toNat - 1]? = some (some constant) := by
  unfold get?
  by_cases zero : index = 0
  · simp [zero]
  · have positive : 0 < index.toNat := by
      apply Nat.pos_of_ne_zero
      intro same
      exact zero (UInt16.toNat_inj.mp same)
    simp [zero, positive, Option.join_eq_some_iff]

theorem text_eq_ok_iff {index : UInt16} {text : String} :
    pool.text index = .ok text ↔
      ∃ bytes, pool.get? index = some (.utf8 bytes) ∧ ModifiedUtf8.decode bytes = .ok text := by
  unfold Pool.text
  constructor
  · intro read
    split at read
    · rename_i bytes found
      split at read
      · rename_i decoded same
        cases read
        exact ⟨bytes, found, same⟩
      · cases read
    · cases read
    · cases read
  · rintro ⟨bytes, found, same⟩
    simp [found, same]

theorem className_eq_ok_iff {index : UInt16} {text : String} :
    pool.className index = .ok text ↔
      ∃ name, pool.get? index = some (.className name) ∧ pool.text name = .ok text := by
  unfold Pool.className
  constructor
  · intro read
    split at read
    · rename_i name found
      cases inner : pool.text name with
      | ok decoded =>
          rw [inner] at read
          cases read
          exact ⟨name, found, inner⟩
      | error failure =>
          rw [inner] at read
          cases read
    · cases read
    · cases read
  · rintro ⟨name, found, inner⟩
    simp [found, inner, Failure.inContext]

theorem pair?_eq_some_iff {index : UInt16} {name descriptor : String} :
    pool.pair? index = some (name, descriptor) ↔
      ∃ nameIndex descriptorIndex,
        pool.get? index = some (.nameAndType nameIndex descriptorIndex) ∧
        pool.text nameIndex = .ok name ∧ pool.text descriptorIndex = .ok descriptor := by
  unfold pair?
  constructor
  · intro read
    split at read
    · rename_i nameIndex descriptorIndex found
      split at read
      · rename_i first second firstText secondText
        cases read
        exact ⟨nameIndex, descriptorIndex, found, firstText, secondText⟩
      · cases read
    · cases read
  · rintro ⟨nameIndex, descriptorIndex, found, first, second⟩
    simp [found, first, second]

theorem toNat_slotIndex (fits : pool.Fits) {slot : Nat} (inside : slot < pool.slots.size) :
    (UInt16.ofNat (slot + 1)).toNat = slot + 1 := by
  unfold Fits at fits
  rw [UInt16.toNat_ofNat']
  exact Nat.mod_eq_of_lt (by omega)

theorem mem_entries_iff (fits : pool.Fits) {index : UInt16} {constant : Constant} :
    (index, constant) ∈ pool.entries ↔ pool.get? index = some constant := by
  simp only [entries, List.mem_filterMap, Option.map_eq_some_iff, Prod.exists, Prod.mk.injEq,
    List.mem_zipIdx_iff_le_and_getElem?_sub, get?_eq_some_iff]
  constructor
  · rintro ⟨item, position, ⟨low, found⟩, wanted, rfl, rfl, rfl⟩
    have slot : pool.slots[position - 1]? = some (some wanted) := by simpa using found
    have inside := (Array.getElem?_eq_some_iff.mp slot).1
    have value := toNat_slotIndex fits inside
    have same : position - 1 + 1 = position := by omega
    rw [same] at value
    rw [value]
    exact ⟨by omega, slot⟩
  · rintro ⟨positive, slot⟩
    refine ⟨some constant, index.toNat, ⟨by omega, by simpa using slot⟩, constant, rfl, ?_, rfl⟩
    simp

/-- The entries come in the order of their indices. -/
theorem entries_ascend (fits : pool.Fits) :
    pool.entries.Pairwise fun first second => first.1 < second.1 := by
  have numbered : (pool.slots.toList.zipIdx 1).Pairwise fun first second =>
      first.2 < second.2 := by
    rw [← List.pairwise_map, List.zipIdx_map_snd]
    exact List.pairwise_lt_range' 1
  refine (numbered.imp_of_mem ?_).filterMap _ fun _ _ related => related
  intro first second _ inside smaller entry found later laterFound
  obtain ⟨constant, -, rfl⟩ := Option.map_eq_some_iff.mp found
  obtain ⟨laterConstant, -, rfl⟩ := Option.map_eq_some_iff.mp laterFound
  have bound := List.snd_lt_of_mem_zipIdx inside
  rw [Array.length_toList] at bound
  unfold Fits at fits
  rw [UInt16.lt_iff_toNat_lt, UInt16.toNat_ofNat', UInt16.toNat_ofNat',
    Nat.mod_eq_of_lt (by omega), Nat.mod_eq_of_lt (by omega)]
  exact smaller

end Views

section Growth

variable {before after : Pool}

theorem keeps_refl (kept : Constant → Bool) (pool : Pool) : Keeps kept pool pool := by
  intro index constant _ found
  exact found

theorem keeps_trans {kept : Constant → Bool} {first second third : Pool}
    (start : Keeps kept first second) (next : Keeps kept second third) :
    Keeps kept first third := by
  intro index constant wanted found
  exact next index constant wanted (start index constant wanted found)

theorem Keeps.weaken {kept fewer : Constant → Bool} (stays : Keeps kept before after)
    (less : ∀ constant, fewer constant = true → kept constant = true) :
    Keeps fewer before after := by
  intro index constant wanted found
  exact stays index constant (less constant wanted) found

theorem extends_refl (pool : Pool) : Extends pool pool := keeps_refl _ pool

theorem extends_trans {first second third : Pool} (start : Extends first second)
    (next : Extends second third) : Extends first third := keeps_trans start next

theorem Extends.keeps (grown : Extends before after) (kept : Constant → Bool) :
    Keeps kept before after := grown.weaken fun _ _ => rfl

theorem Keeps.texts {kept : Constant → Bool} (stays : Keeps kept before after)
    (texts : ∀ bytes, kept (.utf8 bytes) = true) : KeepsTexts before after := by
  apply stays.weaken
  intro constant wanted
  cases constant with
  | utf8 bytes => exact texts bytes
  | _ => cases wanted

theorem Extends.texts (grown : Extends before after) : KeepsTexts before after := grown.keeps _

theorem KeepsTexts.text (kept : KeepsTexts before after) {index : UInt16} {text : String}
    (read : before.text index = .ok text) : after.text index = .ok text := by
  obtain ⟨bytes, found, decoded⟩ := text_eq_ok_iff.mp read
  exact text_eq_ok_iff.mpr ⟨bytes, kept index _ rfl found, decoded⟩

theorem KeepsTexts.className {kept : Constant → Bool} (texts : KeepsTexts before after)
    (stays : Keeps kept before after) (names : ∀ name, kept (.className name) = true)
    {index : UInt16} {text : String} (read : before.className index = .ok text) :
    after.className index = .ok text := by
  obtain ⟨name, found, inner⟩ := className_eq_ok_iff.mp read
  exact className_eq_ok_iff.mpr ⟨name, stays index _ (names name) found, texts.text inner⟩

theorem KeepsTexts.pair? {kept : Constant → Bool} (texts : KeepsTexts before after)
    (stays : Keeps kept before after)
    (pairs : ∀ name descriptor, kept (.nameAndType name descriptor) = true)
    {index : UInt16} {pair : String × String} (read : before.pair? index = some pair) :
    after.pair? index = some pair := by
  obtain ⟨name, descriptor, found, first, second⟩ := pair?_eq_some_iff.mp read
  exact pair?_eq_some_iff.mpr ⟨name, descriptor, stays index _ (pairs name descriptor) found,
    texts.text first, texts.text second⟩

theorem Extends.text (grown : Extends before after) {index : UInt16} {text : String}
    (read : before.text index = .ok text) : after.text index = .ok text :=
  grown.texts.text read

theorem Extends.pair? (grown : Extends before after) {index : UInt16} {pair : String × String}
    (read : before.pair? index = some pair) : after.pair? index = some pair :=
  grown.texts.pair? grown (fun _ _ => rfl) read

theorem toNat_nextIndex {pool : Pool} (fits : pool.Fits) :
    pool.nextIndex.toNat = pool.slots.size + 1 := by
  unfold Fits at fits
  unfold nextIndex
  rw [UInt16.toNat_ofNat']
  exact Nat.mod_eq_of_lt (by omega)

/-- Nothing is found from the next index on. -/
theorem get?_of_nextIndex_le {pool : Pool} (fits : pool.Fits) {index : UInt16}
    (behind : pool.nextIndex ≤ index) : pool.get? index = none := by
  rw [UInt16.le_iff_toNat_le, toNat_nextIndex fits] at behind
  cases found : pool.get? index with
  | none => rfl
  | some constant =>
      have inside := (Array.getElem?_eq_some_iff.mp (get?_eq_some_iff.mp found).2).1
      omega

/-- All that adding a constant can come to. -/
theorem push_eq {pool : Pool} (fits : pool.Fits) (constant : Constant) : pool.push constant =
    if 65534 < pool.slots.size + constant.slots then .error ⟨constant, pool.nextIndex⟩
    else .ok (pool.nextIndex, ⟨pool.slots ++ slotsOf constant⟩) := by
  have limit : pool.nextIndex.toNat + constant.slots > 65535 ↔
      65534 < pool.slots.size + constant.slots := by
    rw [toNat_nextIndex fits]
    omega
  simp only [push, limit]

/-- A constant that fills one slot comes right behind the others. The last index is never given
out, so there is room for one more. -/
theorem push_slots {pool grown : Pool} {constant : Constant} {index : UInt16} (fits : pool.Fits)
    (narrow : constant.isWide = false) (pushed : pool.push constant = .ok (index, grown)) :
    pool.slots.size + 1 ≤ 65534 ∧ index = pool.nextIndex ∧
      grown = ⟨pool.slots.push (some constant)⟩ := by
  have one : constant.slots = 1 := if_neg (by simp [narrow])
  have slot : slotsOf constant = [some constant] := if_neg (by simp [narrow])
  rw [push_eq fits, one, slot] at pushed
  split at pushed
  · cases pushed
  · cases pushed
    exact ⟨by omega, rfl, rfl⟩

theorem get?_push {slots : Array (Option Constant)} {constant : Constant} {index : UInt16} :
    get? ⟨slots.push (some constant)⟩ index =
      if index.toNat = slots.size + 1 then some constant else get? ⟨slots⟩ index := by
  by_cases last : index.toNat = slots.size + 1
  · have place : index.toNat - 1 = slots.size := by omega
    rw [if_pos last, get?_eq_some_iff]
    exact ⟨by omega, by rw [place, Array.getElem?_push_size]⟩
  · rw [if_neg last]
    by_cases zero : index = 0
    · simp [get?, zero]
    · have positive : index.toNat ≠ 0 := fun same => zero (UInt16.toNat_inj.mp same)
      have other : index.toNat - 1 ≠ slots.size := by omega
      simp [get?, zero, Array.getElem?_push, other]

theorem push_grows {pool grown : Pool} {constant : Constant} {index : UInt16} (fits : pool.Fits)
    (narrow : constant.isWide = false) (pushed : pool.push constant = .ok (index, grown)) :
    grown.Fits ∧ Extends pool grown ∧ grown.get? index = some constant := by
  obtain ⟨room, rfl, rfl⟩ := push_slots fits narrow pushed
  refine ⟨by simpa [Fits] using room, ?_, ?_⟩
  -- an index that has a constant is below the new one
  · intro index found _ stands
    have inside := (Array.getElem?_eq_some_iff.mp (get?_eq_some_iff.mp stands).2).1
    have other : index.toNat ≠ pool.slots.size + 1 := by omega
    rw [get?_push, if_neg other]
    exact stands
  · rw [get?_push, if_pos (toNat_nextIndex fits)]

theorem get?_replace (pool : Pool) (index wanted : UInt16) (constant : Constant) :
    (pool.replace index constant).get? wanted =
      if wanted = index ∧ (pool.get? index).isSome then some constant else pool.get? wanted := by
  unfold replace
  split
  · rename_i present
    obtain ⟨found, stands⟩ := Option.isSome_iff_exists.mp present
    obtain ⟨positive, slot⟩ := get?_eq_some_iff.mp stands
    have inside := (Array.getElem?_eq_some_iff.mp slot).1
    by_cases same : wanted = index
    · subst same
      rw [if_pos ⟨rfl, present⟩, get?_eq_some_iff]
      exact ⟨positive, by rw [Array.getElem?_setIfInBounds, if_pos rfl, if_pos inside]⟩
    · rw [if_neg (fun both => same both.1)]
      unfold get?
      split
      · rfl
      · rename_i nonzero
        -- neither index is zero, so different indices have different slots
        have place : index.toNat - 1 ≠ wanted.toNat - 1 := by
          intro equal
          have wantedPositive : wanted.toNat ≠ 0 := fun zero => nonzero (UInt16.toNat_inj.mp zero)
          exact same (UInt16.toNat_inj.mp (by omega))
        rw [Array.getElem?_setIfInBounds, if_neg place]
  · rename_i absent
    rw [if_neg (fun both => absent both.2)]

theorem get?_replace_self {pool : Pool} {index : UInt16} {constant : Constant}
    (stands : pool.get? index = some constant) (result : Constant) :
    (pool.replace index result).get? index = some result := by
  rw [get?_replace, stands]
  simp

theorem get?_replace_of_ne (pool : Pool) {index place : UInt16} (other : place ≠ index)
    (result : Constant) : (pool.replace index result).get? place = pool.get? place := by
  rw [get?_replace, if_neg fun both => other both.1]

/-- Replacing a constant keeps the constants of all other kinds. -/
theorem keeps_replace (kept : Constant → Bool) {pool : Pool} {index : UInt16}
    {constant : Constant} (stands : pool.get? index = some constant)
    (changed : kept constant = false) (result : Constant) :
    pool.Keeps kept (pool.replace index result) := by
  intro place found wanted present
  have elsewhere : place ≠ index := by
    intro here
    rw [here, stands] at present
    cases present
    rw [changed] at wanted
    cases wanted
  rw [get?_replace_of_ne pool elsewhere]
  exact present

/-- A constant of a kind that is put in nowhere was there before. -/
theorem keeps_of_replace (kept : Constant → Bool) {pool : Pool} {index : UInt16}
    {result : Constant} (added : kept result = false) :
    (pool.replace index result).Keeps kept pool := by
  intro place found wanted present
  rw [get?_replace] at present
  split at present
  · cases present
    rw [added] at wanted
    cases wanted
  · exact present

/-- After a constant is added, an index has it or what it had before. -/
theorem get?_of_push {pool grown : Pool} {constant found : Constant} {index place : UInt16}
    (fits : pool.Fits) (narrow : constant.isWide = false)
    (pushed : pool.push constant = .ok (index, grown))
    (stands : grown.get? place = some found) :
    place = index ∧ found = constant ∨ pool.get? place = some found := by
  obtain ⟨-, rfl, rfl⟩ := push_slots fits narrow pushed
  rw [get?_push] at stands
  split at stands
  · rename_i last
    cases stands
    exact Or.inl ⟨UInt16.toNat_inj.mp (last.trans (toNat_nextIndex fits).symm), rfl⟩
  · exact Or.inr stands

theorem keeps_of_push (kept : Constant → Bool) {pool grown : Pool} {constant : Constant}
    {index : UInt16} (fits : pool.Fits) (narrow : constant.isWide = false)
    (added : kept constant = false) (pushed : pool.push constant = .ok (index, grown)) :
    grown.Keeps kept pool := by
  intro place found wanted present
  rcases get?_of_push fits narrow pushed present with ⟨-, rfl⟩ | earlier
  · rw [added] at wanted
    cases wanted
  · exact earlier

/-- Pairs at other indices stay when a constant that is no text is replaced. -/
theorem pair?_replace_of_ne {pool : Pool} {index place : UInt16} (other : place ≠ index)
    {result : Constant} (texts : pool.KeepsTexts (pool.replace index result))
    {pair : String × String} (stands : pool.pair? place = some pair) :
    (pool.replace index result).pair? place = some pair := by
  obtain ⟨name, descriptor, there, first, second⟩ := pair?_eq_some_iff.mp stands
  exact pair?_eq_some_iff.mpr ⟨name, descriptor,
    (get?_replace_of_ne pool other result).trans there, texts.text first, texts.text second⟩

theorem fits_replace {pool : Pool} (fits : pool.Fits) (index : UInt16) (constant : Constant) :
    (pool.replace index constant).Fits := by
  unfold replace
  split
  · simpa [Fits] using fits
  · exact fits

end Growth

end Deobfuscation.Pool
