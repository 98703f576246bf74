import Deobfuscation.Proofs.NameReplacement
import Deobfuscation.Proofs.TableOrder

/-!
Mapping one text several times. If no new name has the end of a name in it, the names of the
mapped text stand where those of the text stood, however long they are. Main statement: mapping
with two tables in turn is mapping with one table, which sends every key through both.
-/

namespace Deobfuscation

namespace Table

variable {Key Value : Type} [DecidableEq Key]

theorem find_keyed (value : Key → Value) (key : Key) (keys : List Key) :
    find key (keys.map fun other => (other, value other)) =
      if key ∈ keys then some (value key) else none := by
  induction keys with
  | nil => rfl
  | cons first rest ih =>
      by_cases same : first = key
      · simp [find, same]
      · simp [find, same, Ne.symm same, ih]

theorem mem_values_of_get? {table : Table Key Value} {key : Key} {value : Value}
    (found : table.get? key = some value) : value ∈ table.values :=
  List.mem_map.mpr ⟨_, table.get?_eq_some_iff.mp found, rfl⟩

/-- The keys by their values. Of several keys with one value the last one counts. -/
def inverse [DecidableEq Value] (table : Table Key Value) : Table Value Key :=
  ofList (table.entries.map Prod.swap)

theorem get?_inverse [DecidableEq Value] {table : Table Key Value}
    (injective : table.values.Nodup) {key : Key} {value : Value} :
    table.inverse.get? value = some key ↔ table.get? key = some value := by
  have once : ((table.entries.map Prod.swap).map Prod.fst).Nodup := by
    rw [List.map_map]
    exact injective
  rw [get?_eq_some_iff, get?_eq_some_iff, inverse, entries_ofList once]
  simp

end Table

namespace Signature

section Rescan

variable {names : String → String} {text result : List Char}

theorem Replaced.unbroken_of_mem (replaced : Replaced names text result) {name : String}
    (member : .name name ∈ scan none text) : Unbroken name.toList := by
  induction replaced with
  | nameless plain => simp [scan_nameless plain] at member
  | endless plain unbroken => simp [scan_endless plain unbroken] at member
  | name plain unbroken ends _ ih =>
      rcases (mem_scan_name plain unbroken ends).mp member with rfl | later
      · simpa using unbroken
      · exact ih later

/-- The replaced text has its names where the text had them. -/
theorem Replaced.scan_eq (replaced : Replaced names text result)
    (closed : ∀ name, .name name ∈ scan none text → Unbroken (names name).toList) :
    scan none result = (scan none text).map (Segment.rename names) := by
  induction replaced with
  | nameless plain => simp [scan_nameless plain, Segment.rename]
  | endless plain unbroken =>
      simp [scan_endless plain unbroken, Segment.rename, Function.comp_def]
  | name plain unbroken ends _ ih =>
      simp only [mem_scan_name plain unbroken ends, forall_eq_or_imp] at closed
      rw [scan_name plain closed.1 ends, ih closed.2, scan_name plain unbroken ends]
      simp [Segment.rename]

theorem mappedFrom_congr {first second : String → String} {text : List Char}
    (same : ∀ name, .name name ∈ scan none text → first name = second name) :
    mappedFrom first none text = mappedFrom second none text := by
  refine congrArg (List.flatMap Segment.chars) (List.map_congr_left fun piece member => ?_)
  cases piece with
  | plain char => rfl
  | name name => rw [Segment.rename, same name member, Segment.rename]

theorem mappedFrom_id (text : List Char) : mappedFrom id none text = text := by
  have replaced : Replaced id text (mappedFrom id none text) := replaced_iff.mpr rfl
  exact replaced.eq_self_iff.mpr fun _ _ => rfl

theorem mappedFrom_mappedFrom {first : String → String}
    (closed : ∀ name, Unbroken name.toList → Unbroken (first name).toList)
    (second : String → String) (text : List Char) :
    mappedFrom second none (mappedFrom first none text) =
      mappedFrom (fun name => second (first name)) none text := by
  have replaced : Replaced first text (mappedFrom first none text) := replaced_iff.mpr rfl
  -- the second scan meets the names of the first one, renamed
  have found := replaced.scan_eq fun name member => closed name (replaced.unbroken_of_mem member)
  rw [mappedFrom, found, List.map_map, mappedFrom]
  refine congrArg (List.flatMap Segment.chars) (List.map_congr_left fun piece _ => ?_)
  cases piece <;> rfl

end Rescan

section Tables

theorem renamed_of_get? {names : Table String String} {name value : String}
    (found : names.get? name = some value) : renamed names name = value := by
  simp [renamed, found]

theorem renamed_of_missing {names : Table String String} {name : String}
    (missing : names.get? name = none) : renamed names name = name := by
  simp [renamed, missing]

/-- Sends every key of either table through both. -/
def followedBy (first second : Table String String) : Table String String :=
  Table.ofList ((first.keys ++ second.keys).map fun name =>
    (name, renamed second (renamed first name)))

theorem get?_followedBy (first second : Table String String) (name : String) :
    (followedBy first second).get? name =
      if name ∈ first.keys ∨ name ∈ second.keys then some (renamed second (renamed first name))
      else none := by
  rw [followedBy, Table.get?_ofList, ← List.map_reverse, Table.find_keyed]
  simp only [List.mem_reverse, List.mem_append]

theorem renamed_followedBy (first second : Table String String) (name : String) :
    renamed (followedBy first second) name = renamed second (renamed first name) := by
  rw [renamed, get?_followedBy]
  split
  · rfl
  · rename_i fresh
    rw [not_or] at fresh
    rw [Option.getD_none, renamed_of_missing (Table.find_eq_none_iff.mpr fresh.1),
      renamed_of_missing (Table.find_eq_none_iff.mpr fresh.2)]

variable {names : Table String String}

theorem renamed_renamed
    (settled : ∀ value ∈ names.values, ∀ other, names.get? value = some other → other = value)
    (name : String) : renamed names (renamed names name) = renamed names name := by
  cases found : names.get? name with
  | none => rw [renamed_of_missing found, renamed_of_missing found]
  | some value =>
      rw [renamed_of_get? found]
      cases again : names.get? value with
      | none => exact renamed_of_missing again
      | some other =>
          rw [renamed_of_get? again]
          exact settled value (Table.mem_values_of_get? found) other again

theorem renamed_inverse (injective : names.values.Nodup) {name : String}
    (apart : name ∉ names.keys → name ∉ names.values) :
    renamed names.inverse (renamed names name) = name := by
  cases found : names.get? name with
  | some value =>
      rw [renamed_of_get? found]
      exact renamed_of_get? ((Table.get?_inverse injective).mpr found)
  | none =>
      rw [renamed_of_missing found]
      cases back : names.inverse.get? name with
      | none => exact renamed_of_missing back
      | some key =>
          have value := Table.mem_values_of_get? ((Table.get?_inverse injective).mp back)
          exact absurd value (apart (Table.find_eq_none_iff.mp found))

theorem toList_map_map {first second : Table String String}
    (closed : ∀ value ∈ first.values, Unbroken value.toList) {both : String → String}
    {signature : String}
    (same : ∀ name, .name name ∈ segments signature →
      renamed second (renamed first name) = both name) :
    (map second (map first signature)).toList = mappedFrom both none signature.toList := by
  have kept := unbroken_renamed fun entry member =>
    closed entry.2 (List.mem_map.mpr ⟨entry, member, rfl⟩)
  rw [toList_map, toList_map, mappedFrom_mappedFrom kept]
  exact mappedFrom_congr same

/-- Mapping with two tables in turn, the first of which brings in no end of a name, is mapping
with one table. So mapping again changes nothing if new names stay, and the inverse table undoes
a mapping if no two names become the same one. -/
theorem map_in_turn {first : Table String String}
    (closed : ∀ value ∈ first.values, Unbroken value.toList) (signature : String) :
    (∀ second,
      (∀ name, (followedBy first second).get? name =
        if name ∈ first.keys ∨ name ∈ second.keys then some (renamed second (renamed first name))
        else none) ∧
      map second (map first signature) = map (followedBy first second) signature) ∧
    ((∀ value ∈ first.values, ∀ other, first.get? value = some other → other = value) →
      map first (map first signature) = map first signature) ∧
    (first.values.Nodup →
      (∀ name, .name name ∈ segments signature → name ∉ first.keys → name ∉ first.values) →
      map first.inverse (map first signature) = signature) := by
  refine ⟨fun second => ⟨get?_followedBy first second, ?_⟩, fun settled => ?_,
    fun injective apart => ?_⟩
  · rw [← String.toList_inj, toList_map (followedBy first second)]
    exact toList_map_map closed fun name _ => (renamed_followedBy first second name).symm
  · rw [← String.toList_inj, toList_map first signature]
    exact toList_map_map closed fun name _ => renamed_renamed settled name
  · rw [← String.toList_inj, ← mappedFrom_id signature.toList]
    exact toList_map_map closed fun name member => renamed_inverse injective (apart name member)

theorem map_in_turn_through_letters :
    let first := Table.ofList [("a", "x/L"), ("b", "")]
    let second := Table.ofList [("x/L", "y"), ("c", "a")]
    map first "(La;Lc<Lb;>;[La" = "(Lx/L;Lc<L;>;[La" ∧
      map second (map first "(La;Lc<Lb;>;[La") = "(Ly;La<L;>;[La" ∧
      map (followedBy first second) "(La;Lc<Lb;>;[La" = "(Ly;La<L;>;[La" ∧
      map first (map first "(La;Lc<Lb;>;[La") = "(Lx/L;Lc<L;>;[La" ∧
      map first.inverse (map first "(La;Lc<Lb;>;[La") = "(La;Lc<Lb;>;[La" := by
  intro first second
  have once : map first "(La;Lc<Lb;>;[La" = "(Lx/L;Lc<L;>;[La" := by decide +kernel
  have composed : map (followedBy first second) "(La;Lc<Lb;>;[La" = "(Ly;La<L;>;[La" := by
    decide +kernel
  obtain ⟨inTurn, again, back⟩ :=
    map_in_turn (by decide +kernel : ∀ value ∈ first.values, Unbroken value.toList)
      "(La;Lc<Lb;>;[La"
  have settled : ∀ value ∈ first.values, ∀ other, first.get? value = some other →
      other = value := by
    have fresh : ∀ value ∈ first.values, first.get? value = none := by decide +kernel
    intro value member other found
    rw [fresh value member] at found
    cases found
  have apart : ∀ name, .name name ∈ segments "(La;Lc<Lb;>;[La" → name ∉ first.keys →
      name ∉ first.values := by
    have all : ∀ piece ∈ segments "(La;Lc<Lb;>;[La", ∀ name ∈ first.values,
        piece ≠ .name name := by decide +kernel
    intro name member _ value
    exact all _ member name value rfl
  exact ⟨once, (inTurn second).2.trans composed, composed, (again settled).trans once,
    back (by decide +kernel) apart⟩

end Tables

end Signature

end Deobfuscation
