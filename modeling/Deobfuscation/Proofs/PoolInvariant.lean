import Deobfuscation.Proofs.ClassReading

/-!
What holds of every pool. Its count has 16 bits, and the slots without a constant are just those
behind wide constants. Pools that are read or built from few enough constants are like this, and
adding constants keeps it. A constant is refused if and only if its last slot would have an index
above 65534, so the index that is given out never wraps around.
-/

namespace Deobfuscation.Pool

structure Good (pool : Pool) : Prop where
  fits : pool.Fits
  tiled : Tiled pool.slots.toList

theorem WellFormed.good {pool : Pool} (valid : pool.WellFormed) : pool.Good :=
  ⟨valid.fits, valid.tiled⟩

/-- The pool after a constant was offered. One that is refused leaves it as it is. -/
def offer (pool : Pool) (constant : Constant) : Pool :=
  match pool.push constant with
  | .ok (_, grown) => grown
  | .error _ => pool

structure Appended (pool : Pool) (constant : Constant) (index : UInt16) (grown : Pool) : Prop where
  next : index = pool.nextIndex
  positive : 0 < index
  below : index < 65535
  here : grown.get? index = some constant
  others : ∀ place, place ≠ index → grown.get? place = pool.get? place
  behind : constant.isWide = true → grown.get? (index + 1) = none
  following : grown.nextIndex.toNat = index.toNat + constant.slots

section Sizes

theorem size_ofList (constants : List Constant) :
    (ofList constants).slots.size = totalOf Constant.slots constants := by
  rw [ofList, List.size_toArray]
  induction constants with
  | nil => rfl
  | cons first rest ih =>
      rw [List.flatMap_cons, List.length_append, ih, (Reader.length_slotsOf first).2, totalOf]

theorem good_ofList {constants : List Constant} (few : totalOf Constant.slots constants ≤ 65534) :
    (ofList constants).Good :=
  ⟨Nat.le_trans (Nat.le_of_eq (size_ofList constants)) few, tiled_ofList constants⟩

end Sizes

section Pushes

variable {pool grown : Pool} {constant : Constant} {index place : UInt16}

theorem size_append (slots : Array (Option Constant)) (constant : Constant) :
    (slots ++ slotsOf constant).size = slots.size + constant.slots := by
  rw [← (Reader.length_slotsOf constant).2, ← Array.length_toList, Array.toList_appendList,
    List.length_append, Array.length_toList]

theorem good_append (good : pool.Good) (room : pool.slots.size + constant.slots ≤ 65534) :
    Good ⟨pool.slots ++ slotsOf constant⟩ := by
  constructor
  · exact Nat.le_trans (Nat.le_of_eq (size_append _ _)) room
  · have one : Tiled (slotsOf constant ++ []) := tiled_slotsOf.mpr tiled_nil
    rw [List.append_nil] at one
    simpa using tiled_append good.tiled one

/-- The slot behind a wide constant changes nothing at any index. -/
theorem get?_push_none (slots : Array (Option Constant)) (place : UInt16) :
    get? ⟨slots.push none⟩ place = get? ⟨slots⟩ place := by
  by_cases last : place.toNat - 1 = slots.size
  · simp [get?, last]
  · simp [get?, Array.getElem?_push, last]

theorem get?_append (slots : Array (Option Constant)) (constant : Constant) (place : UInt16) :
    get? ⟨slots ++ slotsOf constant⟩ place =
      if place.toNat = slots.size + 1 then some constant else get? ⟨slots⟩ place := by
  rw [← get?_push]
  unfold slotsOf
  split
  · exact get?_push_none (slots.push (some constant)) place
  · rfl

theorem appended_push (good : pool.Good) (room : pool.slots.size + constant.slots ≤ 65534) :
    Appended pool constant pool.nextIndex ⟨pool.slots ++ slotsOf constant⟩ := by
  have next := toNat_nextIndex good.fits
  obtain ⟨positive, slots⟩ := Reader.length_slotsOf constant
  -- no other index has the number of the new slot, since the next index is not cut
  have others : ∀ place, place ≠ pool.nextIndex →
      get? ⟨pool.slots ++ slotsOf constant⟩ place = pool.get? place := by
    intro place different
    have elsewhere : place.toNat ≠ pool.slots.size + 1 := fun same =>
      different (UInt16.toNat_inj.mp (same.trans next.symm))
    rw [get?_append, if_neg elsewhere]
  constructor
  case next => rfl
  case positive =>
    rw [UInt16.lt_iff_toNat_lt, next]
    exact Nat.succ_pos _
  case below =>
    rw [UInt16.lt_iff_toNat_lt, next]
    change pool.slots.size + 1 < 65535
    omega
  case here => rw [get?_append, if_pos next]
  case others => exact others
  case behind =>
    intro wide
    have two : constant.slots = 2 := if_pos wide
    have later : (pool.nextIndex + 1).toNat = pool.slots.size + 2 := by
      rw [UInt16.toNat_add, next]
      exact Nat.mod_eq_of_lt (by change pool.slots.size + 1 + 1 < 65536; omega)
    rw [get?_append, if_neg (by omega)]
    apply get?_of_nextIndex_le good.fits
    rw [UInt16.le_iff_toNat_le, next, later]
    exact Nat.le_succ _
  case following =>
    rw [toNat_nextIndex (good_append good room).fits, size_append, next]
    omega

theorem push_of_full (fits : pool.Fits) (full : 65534 < pool.slots.size + constant.slots) :
    pool.push constant = .error ⟨constant, pool.nextIndex⟩ ∧ pool.offer constant = pool := by
  have refused : pool.push constant = .error ⟨constant, pool.nextIndex⟩ := by
    rw [push_eq fits, if_pos full]
  exact ⟨refused, by rw [offer, refused]⟩

theorem push_of_room (good : pool.Good) (room : pool.slots.size + constant.slots ≤ 65534) :
    ∃ index grown, pool.push constant = .ok (index, grown) ∧ pool.offer constant = grown ∧
      grown.Good ∧ Appended pool constant index grown := by
  have added : pool.push constant = .ok (pool.nextIndex, ⟨pool.slots ++ slotsOf constant⟩) := by
    rw [push_eq good.fits, if_neg (by omega)]
  exact ⟨_, _, added, by rw [offer, added], good_append good room, appended_push good room⟩

theorem Appended.extends (appended : Appended pool constant index grown) (fits : pool.Fits) :
    pool.Extends grown := by
  intro place found _ present
  have different : place ≠ index := by
    rintro rfl
    rw [appended.next, get?_of_nextIndex_le fits (UInt16.le_refl _)] at present
    cases present
  rw [appended.others place different]
  exact present

theorem good_offer (good : pool.Good) (constant : Constant) :
    (pool.offer constant).Good ∧ pool.Extends (pool.offer constant) := by
  rcases Nat.lt_or_ge 65534 (pool.slots.size + constant.slots) with full | room
  · rw [(push_of_full good.fits full).2]
    exact ⟨good, extends_refl pool⟩
  · obtain ⟨index, grown, -, same, grownGood, appended⟩ := push_of_room good room
    rw [same]
    exact ⟨grownGood, appended.extends good.fits⟩

theorem good_offers (good : pool.Good) (constants : List Constant) :
    (constants.foldl offer pool).Good ∧ pool.Extends (constants.foldl offer pool) := by
  induction constants generalizing pool with
  | nil => exact ⟨good, extends_refl pool⟩
  | cons constant rest ih =>
      obtain ⟨offered, grown⟩ := good_offer good constant
      obtain ⟨last, more⟩ := ih offered
      exact ⟨last, extends_trans grown more⟩

end Pushes

/-- The empty pool, pools that are read and pools of few enough constants are good, and so is every
pool that comes out of them by adding constants. It refuses a constant just if the slots are too
few, and then nothing changes. Else the constant gets the next index, which has not wrapped around,
and all else stays. Its entries are what is found at the indices, in their order. -/
theorem offers_stay_good :
    Good {} ∧
    (∀ bytes file rest, ClassFile.read bytes = .ok (file, rest) → file.pool.Good) ∧
    (∀ constants, totalOf Constant.slots constants ≤ 65534 → (ofList constants).Good) ∧
    ∀ (start pool : Pool) (offered : List Constant), start.Good → offered.foldl offer start = pool →
      pool.Good ∧ start.Extends pool ∧
      (∀ constant, 65534 < pool.slots.size + constant.slots →
        pool.push constant = .error ⟨constant, pool.nextIndex⟩ ∧ pool.offer constant = pool) ∧
      (∀ constant, pool.slots.size + constant.slots ≤ 65534 →
        ∃ index grown, pool.push constant = .ok (index, grown) ∧ pool.offer constant = grown ∧
          grown.Good ∧ Appended pool constant index grown) ∧
      (∀ index constant, (index, constant) ∈ pool.entries ↔ pool.get? index = some constant) ∧
      pool.entries.Pairwise fun first second => first.1 < second.1 := by
  refine ⟨⟨by decide, tiled_nil⟩, ?_, fun constants few => good_ofList few, ?_⟩
  · intro bytes file rest read
    obtain ⟨taken, -, valid, -⟩ := ClassFile.spelled_of_read read
    exact valid.pool.good
  · rintro start pool offered startGood rfl
    obtain ⟨good, grown⟩ := good_offers startGood offered
    exact ⟨good, grown, fun constant => push_of_full good.fits, fun constant => push_of_room good,
      fun index constant => mem_entries_iff good.fits, entries_ascend good.fits⟩

def filled (count : Nat) : Pool := ofList (List.replicate count (.integer 0))

theorem size_filled (count : Nat) : (filled count).slots.size = count := by
  rw [filled, size_ofList]
  induction count with
  | zero => rfl
  | succ count ih =>
      rw [List.replicate_succ, totalOf, ih, Nat.add_comm]
      rfl

/-- One slot is left. A wide constant no longer fits, a narrow one does and gets the last index. -/
theorem offers_stay_good_full : (filled 65533).Good ∧
    (filled 65533).push (.long 1 2) = .error ⟨.long 1 2, 65534⟩ ∧
    ∃ grown, ((filled 65533).offer (.long 1 2)).push (.integer 7) = .ok (65534, grown) ∧
      grown.get? 65534 = some (.integer 7) ∧
      grown.push (.integer 8) = .error ⟨.integer 8, 65535⟩ := by
  obtain ⟨-, -, built, kept⟩ := offers_stay_good
  have size := size_filled 65533
  have good : (filled 65533).Good := by
    apply built
    rw [← size_ofList]
    exact Nat.le_trans (Nat.le_of_eq size) (by decide)
  have next : (filled 65533).nextIndex = 65534 := by
    rw [nextIndex, size]
    rfl
  obtain ⟨-, -, refuses, -⟩ := kept _ (filled 65533) [] good (List.foldl_nil ..)
  obtain ⟨refused, same⟩ := refuses (.long 1 2) (by rw [size]; decide)
  obtain ⟨-, -, -, adds, -⟩ := kept _ (filled 65533) [.long 1 2] good
    (by rw [List.foldl_cons, same, List.foldl_nil])
  obtain ⟨index, grown, added, last, grownGood, appended⟩ :=
    adds (.integer 7) (by rw [size]; decide)
  obtain rfl : index = 65534 := appended.next.trans next
  have ending : grown.nextIndex = 65535 := UInt16.toNat_inj.mp appended.following
  obtain ⟨-, -, refusesMore, -⟩ := kept _ grown [.long 1 2, .integer 7] good
    (by rw [List.foldl_cons, same, List.foldl_cons, last, List.foldl_nil])
  have used := toNat_nextIndex grownGood.fits
  rw [ending] at used
  have full : 65534 < grown.slots.size + (Constant.integer 8).slots := by
    rw [show grown.slots.size = 65534 from (Nat.succ.inj used).symm]
    decide
  refine ⟨good, by rw [← next]; exact refused, grown, by rw [same]; exact added, appended.here, ?_⟩
  rw [← ending]
  exact (refusesMore (.integer 8) full).1

end Deobfuscation.Pool
