import Deobfuscation.Proofs.PoolGrowth
import Deobfuscation.Proofs.Readers

/-!
Pools that are read. In a well-formed pool the slots without a constant are those behind wide
constants, so the constants alone say what the slots are, and only they are written. Readers
give well-formed pools and read each of them back from its bytes.
-/

namespace Deobfuscation

/-- The length of a text has 16 bits. -/
def Constant.Short : Constant → Prop
  | .utf8 bytes => bytes.length ≤ 65535
  | _ => True

instance (constant : Constant) : Decidable constant.Short :=
  match constant with
  | .utf8 bytes => inferInstanceAs (Decidable (bytes.length ≤ 65535))
  | .integer _ | .float _ | .long .. | .double .. | .className _ | .string _ | .memberRef ..
  | .nameAndType .. | .methodHandle .. | .methodType _ | .dynamic .. | .invokeDynamic ..
  | .moduleName _ | .packageName _ => isTrue trivial

namespace Pool

/-- The slots without a constant are just those right behind wide constants. -/
def Tiled (slots : List (Option Constant)) : Prop :=
  slots[0]? ≠ some none ∧
    ∀ position, slots[position + 1]? = some none ↔
      ∃ constant, slots[position]? = some (some constant) ∧ constant.isWide = true

structure WellFormed (pool : Pool) : Prop where
  fits : pool.Fits
  tiled : Tiled pool.slots.toList
  texts : ∀ constant ∈ pool.constants, constant.Short

section Tiling

variable {constant : Constant} {rest : List (Option Constant)}

theorem tiled_nil : Tiled [] := ⟨by simp, by simp⟩

theorem tiled_narrow (narrow : constant.isWide = false) :
    Tiled (some constant :: rest) ↔ Tiled rest := by
  constructor
  · rintro ⟨-, behind⟩
    refine ⟨?_, fun position => behind (position + 1)⟩
    intro empty
    obtain ⟨_, same, wide⟩ := (behind 0).mp empty
    cases same
    rw [narrow] at wide
    cases wide
  · rintro ⟨first, behind⟩
    refine ⟨nofun, ?_⟩
    intro position
    cases position with
    | zero => simp [first, narrow]
    | succ position => exact behind position

theorem tiled_wide (wide : constant.isWide = true) :
    Tiled (some constant :: rest) ↔ ∃ others, rest = none :: others ∧ Tiled others := by
  constructor
  · rintro ⟨-, behind⟩
    have second : rest[0]? = some none := (behind 0).mpr ⟨constant, rfl, wide⟩
    cases rest with
    | nil => cases second
    | cons slot others =>
        cases second
        refine ⟨others, rfl, ?_, fun position => behind (position + 2)⟩
        intro empty
        obtain ⟨_, same, -⟩ := (behind 1).mp empty
        cases same
  · rintro ⟨others, rfl, first, behind⟩
    refine ⟨nofun, ?_⟩
    intro position
    match position with
    | 0 => simp [wide]
    | 1 => simp [first]
    | position + 2 => exact behind position

theorem tiled_slotsOf : Tiled (slotsOf constant ++ rest) ↔ Tiled rest := by
  unfold slotsOf
  split
  · rename_i wide
    simp [tiled_wide wide]
  · rename_i narrow
    exact tiled_narrow (Bool.eq_false_iff.mpr narrow)

theorem filterMap_flatMap_slotsOf (constants : List Constant) :
    (constants.flatMap slotsOf).filterMap id = constants := by
  induction constants with
  | nil => rfl
  | cons first others ih =>
      rw [List.flatMap_cons, List.filterMap_append, ih]
      unfold slotsOf
      split <;> rfl

theorem tiled_iff (slots : List (Option Constant)) :
    Tiled slots ↔ slots = (slots.filterMap id).flatMap slotsOf := by
  constructor
  · intro tiled
    -- wide constants take two slots, so the induction is on the number of slots
    induction length : slots.length using Nat.strongRecOn generalizing slots with
    | _ size ih =>
      cases slots with
      | nil => rfl
      | cons slot rest =>
          cases slot with
          | none => exact absurd rfl tiled.1
          | some constant =>
              cases wide : constant.isWide with
              | false =>
                  have others := ih rest.length (by simp [← length]) rest
                    ((tiled_narrow wide).mp tiled) rfl
                  simpa [slotsOf, wide] using others
              | true =>
                  obtain ⟨others, rfl, othersTiled⟩ := (tiled_wide wide).mp tiled
                  have fewer : others.length < size := by
                    rw [← length, List.length_cons, List.length_cons]
                    omega
                  have later := ih others.length fewer others othersTiled rfl
                  simpa [slotsOf, wide] using later
  · intro same
    rw [same]
    induction slots.filterMap id with
    | nil => exact tiled_nil
    | cons constant others ih =>
        rw [List.flatMap_cons]
        exact tiled_slotsOf.mpr ih

theorem tiled_append {first second : List (Option Constant)} (tiled : Tiled first)
    (others : Tiled second) : Tiled (first ++ second) := by
  rw [tiled_iff] at tiled others ⊢
  rw [List.filterMap_append, List.flatMap_append, ← tiled, ← others]

instance (slots : List (Option Constant)) : Decidable (Tiled slots) :=
  decidable_of_iff _ (tiled_iff slots).symm

end Tiling

instance (pool : Pool) : Decidable pool.WellFormed :=
  decidable_of_iff
    (pool.Fits ∧ Tiled pool.slots.toList ∧ ∀ constant ∈ pool.constants, constant.Short)
    ⟨fun ⟨fits, tiled, texts⟩ => ⟨fits, tiled, texts⟩,
      fun ⟨fits, tiled, texts⟩ => ⟨fits, tiled, texts⟩⟩

theorem constants_ofList (constants : List Constant) : (ofList constants).constants = constants :=
  filterMap_flatMap_slotsOf constants

theorem tiled_ofList (constants : List Constant) : Tiled (ofList constants).slots.toList := by
  rw [tiled_iff]
  change constants.flatMap slotsOf = ((constants.flatMap slotsOf).filterMap id).flatMap slotsOf
  rw [filterMap_flatMap_slotsOf]

theorem ofList_eq (constants : List Constant) :
    ofList constants = ⟨(#[] : Array (Option Constant)) ++ constants.flatMap slotsOf⟩ := by
  simp [ofList]

/-- The bytes are those of the pool, but that the count of an empty pool can be zero. -/
def Spelled (pool : Pool) (taken : List UInt8) : Prop :=
  ∃ count, (count = pool.nextIndex ∨ count = 0 ∧ pool = {}) ∧
    taken = bytes16 count ++ pool.constants.flatMap Constant.bytes

theorem spelled_bytes (pool : Pool) : pool.Spelled pool.bytes :=
  ⟨pool.nextIndex, Or.inl rfl, rfl⟩

theorem WellFormed.eq_ofList {pool : Pool} (valid : pool.WellFormed) :
    pool = ofList pool.constants := by
  have slots := (tiled_iff _).mp valid.tiled
  cases pool
  simp only [ofList, constants, mk.injEq] at slots ⊢
  rw [← slots]

end Pool

namespace Reader

section Branches

variable {Item : Type} {condition : Prop} [Decidable condition]

theorem sound_ite {reader otherwise : Reader Item} {Spelled : Item → List UInt8 → Prop}
    (holds : condition → Sound reader Spelled) (fails : Sound otherwise Spelled) :
    Sound (if condition then reader else otherwise) Spelled := by
  split
  · rename_i yes
    exact holds yes
  · exact fails

theorem outlasts_ite {reader longer otherwise others : Reader Item}
    (holds : Outlasts longer reader) (fails : Outlasts others otherwise) :
    Outlasts (if condition then longer else others) (if condition then reader else otherwise) := by
  split
  · exact holds
  · exact fails

end Branches

section Constants

/-- What stands behind a tag. -/
def Behind (tag : UInt8) (constant : Constant) (tail : List UInt8) : Prop :=
  constant.Short ∧ tag :: tail = constant.bytes

theorem sound_text : Sound (do return .utf8 (← sized16)) (Behind 1) := by
  apply sound_sized16.map
  rintro bytes _ ⟨short, rfl⟩
  exact ⟨short, rfl⟩

theorem sound_bits {tag : UInt8} {make : UInt32 → Constant}
    (spelled : ∀ bits, Behind tag (make bits) (bytes32 bits)) :
    Sound (do return make (← word32)) (Behind tag) := by
  apply sound_word32.map
  rintro bits _ rfl
  exact spelled bits

theorem sound_wideBits {tag : UInt8} {make : UInt32 → UInt32 → Constant}
    (spelled : ∀ high low, Behind tag (make high low) (bytes32 high ++ bytes32 low)) :
    Sound (do let high ← word32; return make high (← word32)) (Behind tag) := by
  apply sound_word32.bind
  rintro high _ rfl
  apply sound_word32.map
  rintro low _ rfl
  exact spelled high low

theorem sound_index {tag : UInt8} {make : UInt16 → Constant}
    (spelled : ∀ index, Behind tag (make index) (bytes16 index)) :
    Sound (do return make (← word16)) (Behind tag) := by
  apply sound_word16.map
  rintro index _ rfl
  exact spelled index

theorem sound_pair16 {tag : UInt8} {make : UInt16 → UInt16 → Constant}
    (spelled : ∀ first second, Behind tag (make first second) (bytes16 first ++ bytes16 second)) :
    Sound (pair16 make) (Behind tag) := by
  apply sound_word16.bind
  rintro first _ rfl
  apply sound_word16.map
  rintro second _ rfl
  exact spelled first second

theorem reads_pair16 {Item : Type} {make : UInt16 → UInt16 → Item} (first second : UInt16) :
    Reads (pair16 make) (make first second) (bytes16 first ++ bytes16 second) :=
  (reads_word16 first).bind ((reads_word16 second).map (make first))

theorem sound_handle :
    Sound (do let kind ← word8; return .methodHandle kind (← word16)) (Behind 15) := by
  apply sound_word8.bind
  rintro kind _ rfl
  apply sound_word16.map
  rintro reference _ rfl
  exact ⟨trivial, rfl⟩

theorem sound_constant :
    Sound constant fun constant taken => constant.Short ∧ taken = constant.bytes := by
  apply sound_word8.bind
  rintro tag _ rfl
  change Sound _ (Behind tag)
  refine sound_ite (fun same => same ▸ sound_text) ?_
  refine sound_ite (fun same => same ▸ sound_bits fun _ => ⟨trivial, rfl⟩) ?_
  refine sound_ite (fun same => same ▸ sound_bits fun _ => ⟨trivial, rfl⟩) ?_
  refine sound_ite (fun same => same ▸ sound_wideBits fun _ _ => ⟨trivial, rfl⟩) ?_
  refine sound_ite (fun same => same ▸ sound_wideBits fun _ _ => ⟨trivial, rfl⟩) ?_
  refine sound_ite (fun same => same ▸ sound_index fun _ => ⟨trivial, rfl⟩) ?_
  refine sound_ite (fun same => same ▸ sound_index fun _ => ⟨trivial, rfl⟩) ?_
  refine sound_ite (fun same => same ▸ sound_pair16 fun _ _ => ⟨trivial, rfl⟩) ?_
  refine sound_ite (fun same => same ▸ sound_pair16 fun _ _ => ⟨trivial, rfl⟩) ?_
  refine sound_ite (fun same => same ▸ sound_pair16 fun _ _ => ⟨trivial, rfl⟩) ?_
  refine sound_ite (fun same => same ▸ sound_pair16 fun _ _ => ⟨trivial, rfl⟩) ?_
  refine sound_ite (fun same => same ▸ sound_handle) ?_
  refine sound_ite (fun same => same ▸ sound_index fun _ => ⟨trivial, rfl⟩) ?_
  refine sound_ite (fun same => same ▸ sound_pair16 fun _ _ => ⟨trivial, rfl⟩) ?_
  refine sound_ite (fun same => same ▸ sound_pair16 fun _ _ => ⟨trivial, rfl⟩) ?_
  refine sound_ite (fun same => same ▸ sound_index fun _ => ⟨trivial, rfl⟩) ?_
  refine sound_ite (fun same => same ▸ sound_index fun _ => ⟨trivial, rfl⟩) ?_
  exact sound_fail

theorem reads_constant {item : Constant} (short : item.Short) :
    Reads constant item item.bytes := by
  have tagged : Reads word8 item.tag [item.tag] := reads_word8 _
  apply tagged.bind
  cases item with
  | utf8 bytes => exact (reads_sized16 short).map Constant.utf8
  | integer bits => exact (reads_word32 bits).map Constant.integer
  | float bits => exact (reads_word32 bits).map Constant.float
  | long high low => exact (reads_word32 high).bind ((reads_word32 low).map _)
  | double high low => exact (reads_word32 high).bind ((reads_word32 low).map _)
  | className name => exact (reads_word16 name).map Constant.className
  | string text => exact (reads_word16 text).map Constant.string
  | memberRef kind owner pair => cases kind <;> exact reads_pair16 owner pair
  | nameAndType name descriptor => exact reads_pair16 name descriptor
  | methodHandle kind reference => exact (reads_word8 kind).bind ((reads_word16 reference).map _)
  | methodType descriptor => exact (reads_word16 descriptor).map Constant.methodType
  | dynamic bootstrap pair => exact reads_pair16 bootstrap pair
  | invokeDynamic bootstrap pair => exact reads_pair16 bootstrap pair
  | moduleName name => exact (reads_word16 name).map Constant.moduleName
  | packageName name => exact (reads_word16 name).map Constant.packageName

theorem outlasts_pair16 {Item : Type} (make : UInt16 → UInt16 → Item) :
    Outlasts (pair16 make) (pair16 make) :=
  outlasts_word16.bind fun _ => outlasts_word16.map _

theorem outlasts_constant : Outlasts constant constant := by
  apply outlasts_word8.bind
  intro tag
  refine outlasts_ite (outlasts_sized16.map _) ?_
  refine outlasts_ite (outlasts_word32.map _) ?_
  refine outlasts_ite (outlasts_word32.map _) ?_
  refine outlasts_ite (outlasts_word32.bind fun _ => outlasts_word32.map _) ?_
  refine outlasts_ite (outlasts_word32.bind fun _ => outlasts_word32.map _) ?_
  refine outlasts_ite (outlasts_word16.map _) ?_
  refine outlasts_ite (outlasts_word16.map _) ?_
  refine outlasts_ite (outlasts_pair16 _) ?_
  refine outlasts_ite (outlasts_pair16 _) ?_
  refine outlasts_ite (outlasts_pair16 _) ?_
  refine outlasts_ite (outlasts_pair16 _) ?_
  refine outlasts_ite (outlasts_word8.bind fun _ => outlasts_word16.map _) ?_
  refine outlasts_ite (outlasts_word16.map _) ?_
  refine outlasts_ite (outlasts_pair16 _) ?_
  refine outlasts_ite (outlasts_pair16 _) ?_
  refine outlasts_ite (outlasts_word16.map _) ?_
  refine outlasts_ite (outlasts_word16.map _) ?_
  exact outlasts_fail _

end Constants

section Slots

/-- The slots are filled up with so many more, for constants that the bytes spell. -/
def FilledUp (filled : Array (Option Constant)) (count : Nat) (result : Array (Option Constant))
    (taken : List UInt8) : Prop :=
  ∃ constants : List Constant, result = filled ++ constants.flatMap Pool.slotsOf ∧
    (constants.flatMap Pool.slotsOf).length = count ∧
    (∀ constant ∈ constants, constant.Short) ∧ taken = constants.flatMap Constant.bytes

theorem FilledUp.cons {filled result : Array (Option Constant)} {count : Nat}
    {taken : List UInt8} {next : Constant} (short : next.Short)
    (others : FilledUp (filled ++ Pool.slotsOf next) count result taken) :
    FilledUp filled ((Pool.slotsOf next).length + count) result (next.bytes ++ taken) := by
  obtain ⟨constants, rfl, rfl, allShort, rfl⟩ := others
  refine ⟨next :: constants, ?_, by simp, ?_, rfl⟩
  · rw [List.flatMap_cons]
    apply Array.ext'
    simp
  · intro constant member
    rcases List.mem_cons.mp member with rfl | later
    · exact short
    · exact allShort constant later

theorem length_slotsOf (constant : Constant) :
    0 < (Pool.slotsOf constant).length ∧ (Pool.slotsOf constant).length = constant.slots := by
  unfold Pool.slotsOf Constant.slots
  split <;> exact ⟨by simp, rfl⟩

/-- The slots of one constant are filled, if so many are left. -/
theorem slots_succ (count : Nat) (filled : Array (Option Constant)) :
    Reader.slots (count + 1) filled = Reader.constant >>= fun next =>
      if next.slots ≤ count + 1 then
        Reader.slots (count + 1 - next.slots) (filled ++ Pool.slotsOf next)
      else fail (.lastWide (filled.size + 1)) := by
  cases count with
  | zero =>
      rw [Reader.slots]
      congr
      funext last
      cases wide : last.isWide with
      | false => simp [Constant.slots, Pool.slotsOf, wide, Reader.slots]
      | true => simp [Constant.slots, wide]
  | succ count =>
      rw [Reader.slots]
      congr
      funext next
      cases wide : next.isWide with
      | false => simp [Constant.slots, Pool.slotsOf, wide]
      | true => simp [Constant.slots, Pool.slotsOf, wide]

theorem sound_slots (count : Nat) (filled : Array (Option Constant)) :
    Sound (Reader.slots count filled) (FilledUp filled count) := by
  -- a wide constant takes two slots away, so the smaller counts are all needed
  induction count using Nat.strongRecOn generalizing filled with
  | _ count ih =>
    cases count with
    | zero => exact sound_pure ⟨[], by simp, rfl, nofun, rfl⟩
    | succ count =>
        rw [slots_succ]
        apply sound_constant.bind
        rintro next _ ⟨short, rfl⟩
        obtain ⟨positive, length⟩ := length_slotsOf next
        apply sound_ite _ sound_fail
        intro room
        apply (ih (count + 1 - next.slots) (by omega) _).imp
        intro result taken others
        have joined := FilledUp.cons short others
        rwa [length, Nat.add_sub_cancel' room] at joined

theorem reads_slots (constants : List Constant) (short : ∀ constant ∈ constants, constant.Short)
    (filled : Array (Option Constant)) :
    Reads (Reader.slots (constants.flatMap Pool.slotsOf).length filled)
      (filled ++ constants.flatMap Pool.slotsOf) (constants.flatMap Constant.bytes) := by
  induction constants generalizing filled with
  | nil => exact reads_pure _
  | cons next others ih =>
      obtain ⟨positive, length⟩ := length_slotsOf next
      have later := ih (fun constant member => short constant (List.mem_cons_of_mem next member))
        (filled ++ Pool.slotsOf next)
      have moved : filled ++ Pool.slotsOf next ++ others.flatMap Pool.slotsOf =
          filled ++ (next :: others).flatMap Pool.slotsOf := by
        apply Array.ext'
        simp
      obtain ⟨count, total⟩ : ∃ count, ((next :: others).flatMap Pool.slotsOf).length =
          count + 1 := Nat.exists_eq_add_one.mpr (by simp; omega)
      have counted : count + 1 = next.slots + (others.flatMap Pool.slotsOf).length := by
        rw [← total, ← length, List.flatMap_cons, List.length_append]
      rw [total, slots_succ]
      apply (reads_constant (short next List.mem_cons_self)).bind
      rw [if_pos (by omega), ← moved, counted, Nat.add_sub_cancel_left]
      exact later

theorem outlasts_slots (count : Nat) (filled : Array (Option Constant)) :
    Outlasts (Reader.slots count filled) (Reader.slots count filled) := by
  induction count using Nat.strongRecOn generalizing filled with
  | _ count ih =>
    cases count with
    | zero => exact outlasts_pure _
    | succ count =>
        rw [slots_succ]
        apply outlasts_constant.bind
        intro next
        obtain ⟨positive, length⟩ := length_slotsOf next
        exact outlasts_ite (ih _ (by omega) _) (outlasts_fail _)

theorem sound_pool : Sound Reader.pool fun pool taken =>
    pool.WellFormed ∧ pool.Spelled taken := by
  apply sound_word16.bind
  rintro count _ rfl
  apply (sound_slots _ _).map
  rintro result taken ⟨constants, rfl, size, short, rfl⟩
  have small := count.toNat_lt
  have slots : (Pool.ofList constants).slots.size = count.toNat - 1 := by
    simp [Pool.ofList, size]
  rw [← Pool.ofList_eq]
  refine ⟨⟨?_, Pool.tiled_ofList constants, ?_⟩, count, ?_, ?_⟩
  · unfold Pool.Fits
    omega
  · rwa [Pool.constants_ofList]
  · by_cases zero : count = 0
    · subst zero
      have none : constants.flatMap Pool.slotsOf = [] := List.length_eq_zero_iff.mp size
      exact Or.inr ⟨rfl, by simp [Pool.ofList, none]⟩
    · have positive : count.toNat ≠ 0 := fun same => zero (UInt16.toNat_inj.mp same)
      apply Or.inl
      apply UInt16.toNat_inj.mp
      rw [Pool.nextIndex, slots, toNat_count (by omega)]
      omega
  · rw [Pool.constants_ofList]

theorem reads_pool {pool : Pool} {taken : List UInt8} (valid : pool.WellFormed)
    (spelled : pool.Spelled taken) : Reads Reader.pool pool taken := by
  obtain ⟨count, known, rfl⟩ := spelled
  have slots := valid.eq_ofList
  apply (reads_word16 count).bind
  have filled := (reads_slots pool.constants valid.texts #[]).map Pool.mk
  have size : (pool.constants.flatMap Pool.slotsOf).length = count.toNat - 1 := by
    have count_slots : (pool.constants.flatMap Pool.slotsOf).length = pool.slots.size := by
      conv_rhs => rw [slots]
      simp [Pool.ofList]
    rcases known with rfl | ⟨rfl, rfl⟩
    · rw [count_slots, Pool.toNat_nextIndex valid.fits]
      omega
    · rfl
  rw [size, ← Pool.ofList_eq, ← slots] at filled
  exact filled

theorem outlasts_pool : Outlasts Reader.pool Reader.pool :=
  outlasts_word16.bind fun _ => (outlasts_slots _ _).map _

end Slots

end Reader

end Deobfuscation
