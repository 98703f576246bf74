import Deobfuscation.ClassFile.Reader
import Mathlib.Algebra.Group.Nat.Defs
import Mathlib.Data.List.Basic

/-!
Readers and the bytes they take. A reader is sound for a way of spelling items if the bytes
it takes spell the item it gives. It reads a spelling if it takes just these bytes, whatever
stands behind them. It outlasts another one if more input changes nothing but where that one
ran out of bytes. All three go through sequences and counted lists, so that they have to be
shown only for words.
-/

namespace Deobfuscation

variable {Item Other : Type}

/-- The bytes spell the items one after another. -/
def InTurn (Spelled : Item → List UInt8 → Prop) : List Item → List UInt8 → Prop
  | [], taken => taken = []
  | first :: rest, taken =>
      ∃ head tail, taken = head ++ tail ∧ Spelled first head ∧ InTurn Spelled rest tail

theorem InTurn.imp {Spelled Wider : Item → List UInt8 → Prop} {items : List Item}
    {taken : List UInt8} (turn : InTurn Spelled items taken)
    (each : ∀ item ∈ items, ∀ part, part.length ≤ taken.length → Spelled item part →
      Wider item part) : InTurn Wider items taken := by
  induction items generalizing taken with
  | nil => exact turn
  | cons first rest ih =>
      obtain ⟨head, tail, rfl, spelled, others⟩ := turn
      rw [List.length_append] at each
      refine ⟨head, tail, rfl, each first List.mem_cons_self head (by omega) spelled, ?_⟩
      apply ih others
      intro item member part short
      exact each item (List.mem_cons_of_mem first member) part (by omega)

theorem InTurn.forall_mem {Spelled : Item → List UInt8 → Prop} {Good : Item → Prop}
    {items : List Item} {taken : List UInt8} (turn : InTurn Spelled items taken)
    (each : ∀ item part, Spelled item part → Good item) : ∀ item ∈ items, Good item := by
  induction items generalizing taken with
  | nil => nofun
  | cons first rest ih =>
      obtain ⟨head, tail, -, spelled, others⟩ := turn
      exact List.forall_mem_cons.mpr ⟨each first head spelled, ih others⟩

theorem inTurn_eq_iff {bytes : Item → List UInt8} {items : List Item} {taken : List UInt8} :
    InTurn (fun item part => part = bytes item) items taken ↔ taken = items.flatMap bytes := by
  induction items generalizing taken with
  | nil => exact Iff.rfl
  | cons first rest ih =>
      simp only [InTurn, ih, List.flatMap_cons]
      constructor
      · rintro ⟨_, _, rfl, rfl, rfl⟩
        rfl
      · rintro rfl
        exact ⟨_, _, rfl, rfl, rfl⟩

namespace Reader

def Sound (reader : Reader Item) (Spelled : Item → List UInt8 → Prop) : Prop :=
  ∀ bytes item rest, reader bytes = .ok (item, rest) →
    ∃ taken, bytes = taken ++ rest ∧ Spelled item taken

def Reads (reader : Reader Item) (item : Item) (taken : List UInt8) : Prop :=
  ∀ rest, reader (taken ++ rest) = .ok (item, rest)

/-- What comes out if more bytes stand behind the input and are not needed. -/
def lengthen (more : List UInt8) :
    Except ReadFailure (Item × List UInt8) → Except ReadFailure (Item × List UInt8)
  | .ok (item, rest) => .ok (item, rest ++ more)
  | .error (.malformed fault unread) => .error (.malformed fault (unread ++ more))
  | .error .endOfInput => .error .endOfInput

def Outlasts (longer reader : Reader Item) : Prop :=
  ∀ bytes more, reader bytes = .error .endOfInput ∨
    longer (bytes ++ more) = lengthen more (reader bytes)

section Sequences

variable {reader longer : Reader Item} {next further : Item → Reader Other}

theorem bind_apply (bytes : List UInt8) : (reader >>= next) bytes =
    match reader bytes with
    | .ok (item, rest) => next item rest
    | .error failure => .error failure := by
  change (reader bytes >>= fun read => next read.1 read.2) = _
  cases reader bytes <;> rfl

theorem sound_pure {item : Item} {Spelled : Item → List UInt8 → Prop} (empty : Spelled item []) :
    Sound (pure item) Spelled := by
  intro bytes result rest read
  cases read
  exact ⟨[], rfl, empty⟩

theorem sound_fail {fault : ClassFault} {Spelled : Item → List UInt8 → Prop} :
    Sound (fail fault) Spelled := by
  intro bytes item rest read
  cases read

theorem Sound.bind {First : Item → List UInt8 → Prop} {Spelled : Other → List UInt8 → Prop}
    (first : Sound reader First)
    (others : ∀ item head, First item head →
      Sound (next item) fun result tail => Spelled result (head ++ tail)) :
    Sound (reader >>= next) Spelled := by
  intro bytes result rest read
  rw [bind_apply] at read
  split at read
  · rename_i item middle readFirst
    obtain ⟨head, rfl, spelled⟩ := first bytes item middle readFirst
    obtain ⟨tail, rfl, whole⟩ := others item head spelled middle result rest read
    exact ⟨head ++ tail, (List.append_assoc _ _ _).symm, whole⟩
  · cases read

theorem Sound.imp {Spelled Wider : Item → List UInt8 → Prop} (sound : Sound reader Spelled)
    (each : ∀ item taken, Spelled item taken → Wider item taken) : Sound reader Wider := by
  intro bytes item rest read
  obtain ⟨taken, split, spelled⟩ := sound bytes item rest read
  exact ⟨taken, split, each item taken spelled⟩

theorem Sound.map {First : Item → List UInt8 → Prop} {Spelled : Other → List UInt8 → Prop}
    {change : Item → Other} (sound : Sound reader First)
    (each : ∀ item taken, First item taken → Spelled (change item) taken) :
    Sound (do return change (← reader)) Spelled := by
  apply sound.bind
  intro item taken spelled
  apply sound_pure
  rw [List.append_nil]
  exact each item taken spelled

theorem reads_pure (item : Item) : Reads (pure item) item [] := by
  intro rest
  rfl

theorem Reads.bind {item : Item} {result : Other} {head tail : List UInt8}
    (first : Reads reader item head) (others : Reads (next item) result tail) :
    Reads (reader >>= next) result (head ++ tail) := by
  intro rest
  rw [bind_apply, List.append_assoc, first]
  exact others rest

theorem Reads.map {item : Item} {taken : List UInt8} (reads : Reads reader item taken)
    (change : Item → Other) : Reads (do return change (← reader)) (change item) taken := by
  intro rest
  rw [bind_apply, reads]
  rfl

theorem outlasts_pure (item : Item) : Outlasts (pure item) (pure item) := by
  intro bytes more
  exact Or.inr rfl

theorem outlasts_fail (fault : ClassFault) :
    Outlasts (fail fault : Reader Item) (fail fault) := by
  intro bytes more
  exact Or.inr rfl

theorem Outlasts.bind (first : Outlasts longer reader)
    (others : ∀ item, Outlasts (further item) (next item)) :
    Outlasts (longer >>= further) (reader >>= next) := by
  intro bytes more
  rw [bind_apply, bind_apply]
  rcases first bytes more with ended | same
  · rw [ended]
    exact Or.inl rfl
  · rw [same]
    cases reader bytes with
    | ok read =>
        obtain ⟨item, rest⟩ := read
        exact others item rest more
    | error failure =>
        cases failure with
        | endOfInput => exact Or.inl rfl
        | malformed fault unread => exact Or.inr rfl

theorem Outlasts.map (outlasts : Outlasts longer reader) (change : Item → Other) :
    Outlasts (do return change (← longer)) (do return change (← reader)) :=
  outlasts.bind fun _ => outlasts_pure _

/-- An input that a reader takes as a whole ends too early wherever it is cut. -/
theorem Outlasts.cut {item : Item} {taken part : List UInt8} (outlasts : Outlasts longer reader)
    (reads : Reads longer item taken) (front : part <+: taken) (shorter : part ≠ taken) :
    reader part = .error .endOfInput := by
  obtain ⟨more, rfl⟩ := front
  have whole := reads []
  rw [List.append_nil] at whole
  rcases outlasts part more with ended | same
  · exact ended
  -- else the whole input has the answer of its front, but nothing may be left of it
  · rw [whole] at same
    cases found : reader part with
    | ok read =>
        rw [found] at same
        simp only [lengthen, Except.ok.injEq, Prod.mk.injEq] at same
        have none := (List.append_eq_nil_iff.mp same.2.symm).2
        rw [none, List.append_nil] at shorter
        exact absurd rfl shorter
    | error failure =>
        rw [found] at same
        cases failure with
        | endOfInput => rfl
        | malformed fault unread => cases same

end Sequences

section Words

theorem ofNat_byte {byte : UInt8} {number : Nat} (same : number % 256 = byte.toNat) :
    UInt8.ofNat number = byte := by
  apply UInt8.toNat_inj.mp
  rw [UInt8.toNat_ofNat', same]

theorem reads_word8 (word : UInt8) : Reads word8 word [word] := by
  intro rest
  rfl

theorem sound_word8 : Sound word8 fun word taken => taken = [word] := by
  intro bytes word rest read
  match bytes, read with
  | _ :: _, read =>
      cases read
      exact ⟨[word], rfl, rfl⟩

theorem reads_word16 (word : UInt16) : Reads word16 word (bytes16 word) := by
  intro rest
  have small := word.toNat_lt
  simp only [bytes16, List.cons_append, List.nil_append, word16, UInt8.toNat_ofNat',
    Except.ok.injEq, Prod.mk.injEq, and_true]
  apply UInt16.toNat_inj.mp
  rw [UInt16.toNat_ofNat']
  omega

theorem sound_word16 : Sound word16 fun word taken => taken = bytes16 word := by
  intro bytes word rest read
  match bytes, read with
  | first :: second :: _, read =>
      cases read
      refine ⟨[first, second], rfl, ?_⟩
      have firstSmall := first.toNat_lt
      have secondSmall := second.toNat_lt
      simp only [bytes16, UInt16.toNat_ofNat', List.cons.injEq, and_true]
      exact ⟨(ofNat_byte (by omega)).symm, (ofNat_byte (by omega)).symm⟩

theorem reads_word32 (word : UInt32) : Reads word32 word (bytes32 word) := by
  intro rest
  have small := word.toNat_lt
  simp only [bytes32, List.cons_append, List.nil_append, word32, UInt8.toNat_ofNat',
    Except.ok.injEq, Prod.mk.injEq, and_true]
  apply UInt32.toNat_inj.mp
  rw [UInt32.toNat_ofNat']
  omega

theorem sound_word32 : Sound word32 fun word taken => taken = bytes32 word := by
  intro bytes word rest read
  match bytes, read with
  | first :: second :: third :: fourth :: _, read =>
      cases read
      refine ⟨[first, second, third, fourth], rfl, ?_⟩
      have firstSmall := first.toNat_lt
      have secondSmall := second.toNat_lt
      have thirdSmall := third.toNat_lt
      have fourthSmall := fourth.toNat_lt
      simp only [bytes32, UInt32.toNat_ofNat', List.cons.injEq, and_true]
      exact ⟨(ofNat_byte (by omega)).symm, (ofNat_byte (by omega)).symm,
        (ofNat_byte (by omega)).symm, (ofNat_byte (by omega)).symm⟩

theorem outlasts_word8 : Outlasts word8 word8 := by
  intro bytes more
  match bytes with
  | [] => exact Or.inl rfl
  | _ :: _ => exact Or.inr rfl

theorem outlasts_word16 : Outlasts word16 word16 := by
  intro bytes more
  match bytes with
  | [] | [_] => exact Or.inl rfl
  | _ :: _ :: _ => exact Or.inr rfl

theorem outlasts_word32 : Outlasts word32 word32 := by
  intro bytes more
  match bytes with
  | [] | [_] | [_, _] | [_, _, _] => exact Or.inl rfl
  | _ :: _ :: _ :: _ :: _ => exact Or.inr rfl

theorem reads_take (taken : List UInt8) : Reads (take taken.length) taken taken := by
  intro rest
  simp [take]

theorem sound_take (count : Nat) :
    Sound (take count) fun bytes taken => taken = bytes ∧ bytes.length = count := by
  intro bytes item rest read
  simp only [take] at read
  split at read
  · rename_i enough
    cases read
    exact ⟨bytes.take count, (List.take_append_drop _ _).symm, rfl, enough⟩
  · cases read

theorem outlasts_take (count : Nat) : Outlasts (take count) (take count) := by
  intro bytes more
  simp only [take, List.length_take]
  by_cases enough : count ≤ bytes.length
  · rw [if_pos (by omega), if_pos (by rw [List.length_append]; omega),
      List.take_append_of_le_length enough, List.drop_append_of_le_length enough]
    exact Or.inr rfl
  · rw [if_neg (by omega)]
    exact Or.inl rfl

end Words

section Lists

variable {reader longer : Reader Item} {Spelled : Item → List UInt8 → Prop}

theorem sound_collect (each : Sound reader Spelled) (count : Nat) (done : List Item) :
    Sound (collect reader count done) fun items taken =>
      ∃ more, items = done.reverse ++ more ∧ more.length = count ∧ InTurn Spelled more taken := by
  induction count generalizing done with
  | zero => exact sound_pure ⟨[], by simp, rfl, rfl⟩
  | succ count ih =>
      apply each.bind
      intro item head spelled bytes items rest read
      obtain ⟨taken, rfl, more, rfl, rfl, turn⟩ := ih (item :: done) bytes items rest read
      exact ⟨taken, rfl, item :: more, by simp, rfl, head, taken, rfl, spelled, turn⟩

theorem reads_collect {items : List Item} {taken : List UInt8}
    (turn : InTurn (Reads reader) items taken) (done : List Item) :
    Reads (collect reader items.length done) (done.reverse ++ items) taken := by
  induction items generalizing taken done with
  | nil =>
      obtain rfl := turn
      rw [List.append_nil]
      exact reads_pure _
  | cons item rest ih =>
      obtain ⟨head, tail, rfl, first, others⟩ := turn
      have later := ih others (item :: done)
      rw [List.reverse_cons, List.append_assoc] at later
      exact first.bind later

theorem outlasts_collect (each : Outlasts longer reader) (count : Nat) (done : List Item) :
    Outlasts (collect longer count done) (collect reader count done) := by
  induction count generalizing done with
  | zero => exact outlasts_pure _
  | succ count ih => exact each.bind fun item => ih (item :: done)

theorem toNat_count {count : Nat} (small : count ≤ 65535) : (UInt16.ofNat count).toNat = count := by
  rw [UInt16.toNat_ofNat']
  exact Nat.mod_eq_of_lt (by omega)

theorem sound_counted16 (each : Sound reader Spelled) :
    Sound (counted16 reader) fun items taken => items.length ≤ 65535 ∧
      ∃ content, InTurn Spelled items content ∧
        taken = bytes16 (UInt16.ofNat items.length) ++ content := by
  apply sound_word16.bind
  rintro count _ rfl bytes items rest read
  obtain ⟨taken, rfl, _, rfl, counted, turn⟩ := sound_collect each _ _ _ _ _ read
  have small := count.toNat_lt
  have same : UInt16.ofNat items.length = count := by
    apply UInt16.toNat_inj.mp
    rw [counted, toNat_count (by omega)]
  exact ⟨taken, rfl, by omega, taken, turn, by rw [same]⟩

theorem reads_counted16 {items : List Item} {content : List UInt8} (small : items.length ≤ 65535)
    (turn : InTurn (Reads reader) items content) :
    Reads (counted16 reader) items (bytes16 (UInt16.ofNat items.length) ++ content) := by
  apply (reads_word16 _).bind
  rw [toNat_count small]
  exact reads_collect turn []

theorem outlasts_counted16 (each : Outlasts longer reader) :
    Outlasts (counted16 longer) (counted16 reader) :=
  outlasts_word16.bind fun _ => outlasts_collect each _ _

/-- Items with one spelling each. -/
theorem sound_counted16_eq {bytes : Item → List UInt8}
    (each : Sound reader fun item taken => taken = bytes item) :
    Sound (counted16 reader) fun items taken => items.length ≤ 65535 ∧
      taken = Deobfuscation.counted16 bytes items := by
  intro input items rest read
  obtain ⟨taken, split, small, content, turn, rfl⟩ := sound_counted16 each input items rest read
  exact ⟨_, split, small, by rw [inTurn_eq_iff.mp turn]; rfl⟩

theorem reads_counted16_eq {bytes : Item → List UInt8} {items : List Item}
    (small : items.length ≤ 65535) (each : ∀ item, Reads reader item (bytes item)) :
    Reads (counted16 reader) items (Deobfuscation.counted16 bytes items) := by
  apply reads_counted16 small
  apply (inTurn_eq_iff.mpr rfl).imp
  rintro item - _ - rfl
  exact each item

theorem sound_sized16 : Sound sized16 fun bytes taken => bytes.length ≤ 65535 ∧
    taken = bytes16 (UInt16.ofNat bytes.length) ++ bytes := by
  apply sound_word16.bind
  rintro count _ rfl input bytes rest read
  obtain ⟨taken, rfl, rfl, counted⟩ := sound_take _ _ _ _ read
  have small := count.toNat_lt
  have same : UInt16.ofNat taken.length = count := by
    apply UInt16.toNat_inj.mp
    rw [counted, toNat_count (by omega)]
  exact ⟨taken, rfl, by omega, by rw [same]⟩

theorem reads_sized16 {bytes : List UInt8} (small : bytes.length ≤ 65535) :
    Reads sized16 bytes (bytes16 (UInt16.ofNat bytes.length) ++ bytes) := by
  apply (reads_word16 _).bind
  rw [toNat_count small]
  exact reads_take bytes

theorem outlasts_sized16 : Outlasts sized16 sized16 :=
  outlasts_word16.bind fun _ => outlasts_take _

theorem sound_sized32 : Sound sized32 fun bytes taken => bytes.length < 2 ^ 32 ∧
    taken = Deobfuscation.sized32 bytes := by
  apply sound_word32.bind
  rintro count _ rfl input bytes rest read
  obtain ⟨taken, rfl, rfl, counted⟩ := sound_take _ _ _ _ read
  have small := count.toNat_lt
  have same : UInt32.ofNat taken.length = count := by
    apply UInt32.toNat_inj.mp
    rw [counted, UInt32.toNat_ofNat', Nat.mod_eq_of_lt (by omega)]
  exact ⟨taken, rfl, by omega, by rw [Deobfuscation.sized32, same]⟩

theorem reads_sized32 {bytes : List UInt8} (small : bytes.length < 2 ^ 32) :
    Reads sized32 bytes (Deobfuscation.sized32 bytes) := by
  apply (reads_word32 _).bind
  rw [UInt32.toNat_ofNat', Nat.mod_eq_of_lt small]
  exact reads_take bytes

theorem outlasts_sized32 : Outlasts sized32 sized32 :=
  outlasts_word32.bind fun _ => outlasts_take _

end Lists

end Reader

end Deobfuscation
