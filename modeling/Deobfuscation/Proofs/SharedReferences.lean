import Deobfuscation.Proofs.SharedPairs

/-!
References share pairs. The last pass over a pool adds a pair only if it is not filed, and files
it, so references that ask for the same pair get the same index. Each step of the pass changes one
reference, and keeps what is known of those before it.
-/

namespace Deobfuscation

open Edit Pool

theorem Pool.replace_self {pool : Pool} {index : UInt16} {constant : Constant}
    (stands : pool.get? index = some constant) : pool.replace index constant = pool := by
  obtain ⟨-, slot⟩ := get?_eq_some_iff.mp stands
  obtain ⟨inside, same⟩ := Array.getElem?_eq_some_iff.mp slot
  unfold replace
  rw [stands, Option.isSome_some, if_pos rfl, ← same, Array.setIfInBounds_def, dif_pos inside,
    Array.set_getElem_self]

/-- The index of the name and type of the member reference at an index. -/
def Pool.pairIndex? (pool : Pool) (index : UInt16) : Option UInt16 :=
  match pool.get? index with
  | some (.memberRef _ _ pair) => some pair
  | _ => none

theorem Pool.pairIndex?_eq_some_iff {pool : Pool} {index pair : UInt16} :
    pool.pairIndex? index = some pair ↔
      ∃ kind owner, pool.get? index = some (.memberRef kind owner pair) := by
  unfold pairIndex?
  constructor
  · intro found
    split at found
    · rename_i kind owner place stands
      cases found
      exact ⟨kind, owner, stands⟩
    · cases found
  · rintro ⟨kind, owner, stands⟩
    rw [stands]

theorem Pool.Keeps.pairIndex? {kept : Constant → Bool} {before after : Pool}
    (stays : before.Keeps kept after)
    (references : ∀ kind owner pair, kept (.memberRef kind owner pair) = true)
    {index pair : UInt16} (found : before.pairIndex? index = some pair) :
    after.pairIndex? index = some pair := by
  obtain ⟨kind, owner, stands⟩ := pairIndex?_eq_some_iff.mp found
  exact pairIndex?_eq_some_iff.mpr ⟨kind, owner, stays index _ (references _ _ _) stands⟩

/-- The reference at an index had another pair before and has the one at `place` now. -/
def Pool.RefersAnew (old new : Pool) (pair : String × String) (place index : UInt16) : Prop :=
  new.pairIndex? index = some place ∧
    ∃ before, old.pairIndex? index = some before ∧ old.pair? before ≠ some pair

/-- The reference at an index gets a pair that was looked up or added for it. -/
structure Editing.Refers (before after : Editing) (index : UInt16) (pair : String × String)
    (target : UInt16) : Prop where
  sound : after.Sound
  kept : before.pool.Keeps Constant.isFiled after.pool
  here : after.pool.pairIndex? index = some target
  elsewhere : ∀ place, place ≠ index → ∀ kind owner other,
    (after.pool.get? place = some (.memberRef kind owner other) ↔
      before.pool.get? place = some (.memberRef kind owner other))
  others : ∀ place name descriptor, after.pool.get? place = some (.nameAndType name descriptor) →
    before.pool.get? place = some (.nameAndType name descriptor) ∨ place = target
  size : before.pool.slots.size ≤ after.pool.slots.size
  filed : ∀ wanted, after.interner.pairs.get? wanted =
    if pair = wanted then some target else before.interner.pairs.get? wanted
  origin : before.interner.pairs.get? pair = some target ∨
    before.interner.pairs.get? pair = none ∧ before.pool.slots.size < target.toNat
  once : ∀ start, before.TextsOnce start → after.TextsOnce start

section Referring

variable {before after : Editing} {index target : UInt16} {pair : String × String}

theorem Editing.FilesPair.refers (files : before.FilesPair after pair target) {kind : MemberKind}
    {owner stood : UInt16} (there : before.pool.get? index = some (.memberRef kind owner stood)) :
    before.Refers { after with pool := after.pool.replace index (.memberRef kind owner target) }
      index pair target := by
  have present := files.extended index _ rfl there
  have here := get?_replace_self present (.memberRef kind owner target)
  have stays : after.pool.Keeps Constant.isFiled
      (after.pool.replace index (.memberRef kind owner target)) :=
    keeps_replace _ present rfl _
  refine ⟨files.sound.of_keeps (fits_replace files.sound.fits _ _) stays,
    keeps_trans (files.extended.keeps _) stays, pairIndex?_eq_some_iff.mpr ⟨kind, owner, here⟩,
    ?_, ?_, ?_, files.filed, files.origin, ?_⟩
  · intro place other kind owner pair
    rw [get?_replace_of_ne _ other]
    constructor
    · intro stands
      rcases files.others place _ rfl stands with already | ⟨-, _, _, wrong⟩
      · exact already
      · cases wrong
    · exact files.extended place _ rfl
  · intro place name descriptor stands
    have other : place ≠ index := by
      rintro rfl
      rw [here] at stands
      cases stands
    rw [get?_replace_of_ne _ other] at stands
    exact (files.others place _ rfl stands).imp_right And.left
  · rw [size_replace]
    exact files.size
  · intro start once
    exact (files.once start once).of_keeps (keeps_of_replace _ rfl) rfl

namespace Editing.Refers

variable (refers : before.Refers after index pair target)

include refers

theorem keeps {wanted : String × String} {place : UInt16}
    (known : before.interner.pairs.get? wanted = some place) :
    after.interner.pairs.get? wanted = some place := by
  rw [refers.filed]
  split
  · rename_i same
    subst same
    rcases refers.origin with here | ⟨unknown, -⟩
    · rw [← here, known]
    · rw [unknown] at known
      cases known
  · exact known

theorem known : after.interner.pairs.get? pair = some target := by
  rw [refers.filed, if_pos rfl]

theorem pairIndex?_of_ne {place other : UInt16} (apart : place ≠ index)
    (found : before.pool.pairIndex? place = some other) :
    after.pool.pairIndex? place = some other := by
  obtain ⟨kind, owner, stands⟩ := pairIndex?_eq_some_iff.mp found
  exact pairIndex?_eq_some_iff.mpr ⟨kind, owner, (refers.elsewhere place apart _ _ _).mpr stands⟩

end Editing.Refers

end Referring

namespace Renamer

/-- The reference at an index has a pair with its new texts: the one it had if these are the same,
else the one that is filed. -/
def Answered (old : Pool) (editing : Editing) (index : UInt16) : Prop :=
  ∀ before, old.pairIndex? index = some before →
    ∃ pair result target, old.pair? before = some pair ∧
      editing.pool.pairIndex? index = some target ∧
      editing.pool.pair? target = some result ∧
      (result = pair ∧ target = before ∨
        result ≠ pair ∧ editing.interner.pairs.get? result = some target)

theorem Answered.mono {old : Pool} {before after : Editing} {index : UInt16}
    (answered : Answered old before index)
    (refers : ∀ pair, before.pool.pairIndex? index = some pair →
      after.pool.pairIndex? index = some pair)
    (stays : before.pool.Keeps Constant.isFiled after.pool)
    (filed : ∀ pair place, before.interner.pairs.get? pair = some place →
      after.interner.pairs.get? pair = some place) : Answered old after index := by
  intro stood there
  obtain ⟨pair, result, target, noted, now, pairs, answer⟩ := answered stood there
  exact ⟨pair, result, target, noted, refers target now,
    (stays.texts fun _ => rfl).pair? stays (fun _ _ => rfl) pairs,
    answer.imp_right (And.imp_right (filed result target))⟩

/-- While the last pass goes on: what was filed before it is filed still, and whatever was added
is filed and has a reference that asked for it. The references before `next` have their answers,
and the others are as they were. -/
structure Sharing (renamer : Renamer) (old : Pool) (filed : Bindings (String × String) UInt16)
    (next : Nat) (editing : Editing) : Prop where
  settled : Settled renamer old.namesAndTypes editing
  once : editing.TextsOnce old.nextIndex
  size : old.slots.size ≤ editing.pool.slots.size
  kept : ∀ pair place, filed.get? pair = some place →
    editing.interner.pairs.get? pair = some place
  appended : ∀ index name descriptor, old.nextIndex ≤ index →
    editing.pool.get? index = some (.nameAndType name descriptor) →
    ∃ pair, editing.interner.pairs.get? pair = some index
  asked : ∀ pair place, editing.interner.pairs.get? pair = some place →
    filed.get? pair = some place ∨
      old.nextIndex ≤ place ∧
        ∃ index, index.toNat < next ∧ old.RefersAnew editing.pool pair place index
  answered : ∀ index, index.toNat < next → Answered old editing index
  ahead : ∀ index kind owner pair, next ≤ index.toNat →
    (editing.pool.get? index = some (.memberRef kind owner pair) ↔
      old.get? index = some (.memberRef kind owner pair))

section LastPass

variable {renamer : Renamer} {old : Pool} {filed : Bindings (String × String) UInt16} {next : Nat}
  {index : UInt16} {before after : Editing}

theorem Ready.sharing (ready : Ready renamer old old.nextIndex.toNat before) :
    Sharing renamer old before.interner.pairs 1 before where
  settled := by
    refine ⟨ready.tracked.sound, ?_⟩
    intro index name descriptor noted
    apply ready.stands
    have inside : index.toNat < old.nextIndex.toNat := by
      obtain ⟨_, _, there, -⟩ := ready.tracked.names index name descriptor noted
      exact UInt16.lt_iff_toNat_lt.mp (ready.inside index _ _ there)
    simp [pairAt, noted, inside]
  once := ready.once
  size := ready.size
  kept _ _ known := known
  appended index name descriptor behind there :=
    absurd (ready.inside index name descriptor there) (UInt16.not_lt.mpr behind)
  asked _ _ known := Or.inl known
  answered index first := by
    intro pair found
    obtain ⟨kind, owner, there⟩ := pairIndex?_eq_some_iff.mp found
    have positive := (get?_eq_some_iff.mp there).1
    omega
  ahead index kind owner pair _ := ready.references index kind owner pair

theorem Sharing.of_samePairs (sharing : Sharing renamer old filed next before)
    (same : before.SamePairs after) : Sharing renamer old filed next after where
  settled := sharing.settled.of_keeps same.sound same.filed
  once := same.once _ sharing.once
  size := Nat.le_trans sharing.size same.size
  kept pair place known := same.pairs ▸ sharing.kept pair place known
  appended index name descriptor behind there := by
    rw [same.pairs]
    exact sharing.appended index name descriptor behind (same.back index _ rfl there)
  asked pair place known := by
    rw [same.pairs] at known
    refine (sharing.asked pair place known).imp_right ?_
    rintro ⟨behind, index, visited, here, other⟩
    exact ⟨behind, index, visited, same.kept.pairIndex? (fun _ _ _ => rfl) here, other⟩
  answered index visited := (sharing.answered index visited).mono
    (fun _ => same.kept.pairIndex? fun _ _ _ => rfl) same.filed
    fun _ _ known => same.pairs ▸ known
  ahead index kind owner pair later :=
    same.memberRef_iff.trans (sharing.ahead index kind owner pair later)

theorem Sharing.advance (sharing : Sharing renamer old filed index.toNat before)
    (answered : Answered old before index) :
    Sharing renamer old filed (index.toNat + 1) before :=
  { sharing with
    asked := by
      intro pair place known
      refine (sharing.asked pair place known).imp_right ?_
      rintro ⟨behind, asking, visited, anew⟩
      exact ⟨behind, asking, Nat.lt_succ_of_lt visited, anew⟩
    answered := by
      intro place visited
      by_cases same : place = index
      · exact same ▸ answered
      · have apart : place.toNat ≠ index.toNat := fun equal => same (UInt16.toNat_inj.mp equal)
        exact sharing.answered place (by omega)
    ahead := fun place kind owner pair later =>
      sharing.ahead place kind owner pair (Nat.le_of_succ_le later) }

theorem Sharing.answered_of_other (sharing : Sharing renamer old filed index.toNat before)
    (other : ∀ kind owner pair, before.pool.get? index ≠ some (.memberRef kind owner pair)) :
    Answered old before index := by
  intro pair found
  obtain ⟨kind, owner, there⟩ := pairIndex?_eq_some_iff.mp found
  exact absurd ((sharing.ahead index kind owner pair (Nat.le_refl _)).mpr there)
    (other kind owner pair)

theorem Sharing.refer (sharing : Sharing renamer old filed index.toNat before)
    {stood target : UInt16} {pair result : String × String} (fits : old.Fits)
    (there : old.pairIndex? index = some stood) (noted : old.pair? stood = some pair)
    (changed : result ≠ pair) (refers : before.Refers after index result target) :
    Sharing renamer old filed (index.toNat + 1) after where
  settled := sharing.settled.of_keeps refers.sound refers.kept
  once := refers.once _ sharing.once
  size := Nat.le_trans sharing.size refers.size
  kept wanted place known := refers.keeps (sharing.kept wanted place known)
  appended place name descriptor behind stands := by
    rcases refers.others place name descriptor stands with already | rfl
    · obtain ⟨wanted, known⟩ := sharing.appended place name descriptor behind already
      exact ⟨wanted, refers.keeps known⟩
    · exact ⟨result, refers.known⟩
  asked wanted place known := by
    -- what was asked for before is answered by the same reference
    have again : before.interner.pairs.get? wanted = some place →
        filed.get? wanted = some place ∨ old.nextIndex ≤ place ∧
          ∃ asking, asking.toNat < index.toNat + 1 ∧
            old.RefersAnew after.pool wanted place asking := by
      intro already
      refine (sharing.asked wanted place already).imp_right ?_
      rintro ⟨behind, asking, visited, now, other⟩
      refine ⟨behind, asking, Nat.lt_succ_of_lt visited, refers.pairIndex?_of_ne ?_ now, other⟩
      rintro rfl
      exact Nat.lt_irrefl _ visited
    rw [refers.filed] at known
    split at known
    · rename_i same
      subst same
      cases known
      rcases refers.origin with already | ⟨-, fresh⟩
      · exact again already
      · refine Or.inr ⟨?_, index, Nat.lt_succ_self _, refers.here, stood, there, ?_⟩
        · rw [UInt16.le_iff_toNat_le, toNat_nextIndex fits]
          exact Nat.succ_le_of_lt (Nat.lt_of_le_of_lt sharing.size fresh)
        · rw [noted]
          exact fun same => changed (Option.some.inj same).symm
    · exact again known
  answered place visited := by
    by_cases same : place = index
    · subst same
      intro otherStood otherThere
      rw [there] at otherThere
      cases otherThere
      exact ⟨pair, result, target, noted, refers.here, refers.sound.pairs _ _ refers.known,
        Or.inr ⟨changed, refers.known⟩⟩
    · have apart : place.toNat ≠ index.toNat := fun equal => same (UInt16.toNat_inj.mp equal)
      exact (sharing.answered place (by omega)).mono (fun _ => refers.pairIndex?_of_ne same)
        refers.kept fun _ _ => refers.keeps
  ahead place kind owner other later := by
    have apart : place ≠ index := by
      rintro rfl
      omega
    rw [refers.elsewhere place apart, sharing.ahead place _ _ _ (Nat.le_of_succ_le later)]

theorem Sharing.referenceConstant {inside : String} (fits : old.Fits)
    (sharing : Sharing renamer old filed index.toNat before)
    (run : Runs (renamer.referenceConstant old.namesAndTypes inside index) before () after) :
    Sharing renamer old filed (index.toNat + 1) after := by
  rcases referenceConstant_cases run with ⟨noReference, -, rfl⟩ |
    ⟨kind, owner, stood, target, grown, there, referenced, rfl⟩ |
    ⟨descriptor, target, grown, there, described, rfl⟩
  · exact sharing.advance (sharing.answered_of_other noReference)
  · obtain ⟨ownerText, name, type, newName, newType, -, noted, typeEq, -, ended⟩ :=
      reference_cases referenced
    have oldNoted := noted
    rw [get?_namesAndTypes fits] at oldNoted
    have oldThere : old.pairIndex? index = some stood := pairIndex?_eq_some_iff.mpr
      ⟨kind, owner, (sharing.ahead index kind owner stood (Nat.le_refl _)).mp there⟩
    rcases ended with ⟨unchanged, rfl, rfl⟩ | ⟨changed, notices, interned⟩
    · rw [replace_self there]
      refine sharing.advance ?_
      intro otherStood found
      rw [oldThere] at found
      cases found
      have refers := pairIndex?_eq_some_iff.mpr ⟨kind, owner, there⟩
      have standing := sharing.settled.pairs _ name type noted
      rw [← typeEq, (Prod.mk.inj unchanged).2] at standing
      exact ⟨(name, type), (name, type), target, oldNoted, refers, standing, Or.inl ⟨rfl, rfl⟩⟩
    · have noticed : before.SamePairs { before with notices } :=
        ⟨sharing.settled.sound.with_notices _, keeps_refl _ _, keeps_refl _ _, Nat.le_refl _, rfl,
          fun _ once => once.of_keeps (keeps_refl _ _) rfl⟩
      exact (sharing.of_samePairs noticed).refer fits oldThere oldNoted changed
        ((internPair_files noticed.sound interned).refers there)
  · have adds := descriptorAt_within lasting_adds descriptor _ _ _ described sharing.settled.sound
    have renamed := sharing.of_samePairs (adds.samePairs_replace there rfl (.methodType target) rfl)
    refine renamed.advance (renamed.answered_of_other ?_)
    intro kind owner pair here
    rw [get?_replace_self (adds.extended index _ rfl there)] at here
    cases here

end LastPass

end Renamer

end Deobfuscation
