import Deobfuscation.Proofs.ClassNames
import Mathlib.Data.List.Basic
import Mathlib.Data.List.Induction
import Mathlib.Data.Prod.Basic

/-!
What a table remembers of the pairs that were put into it: the keys in the order of their first
pairs, each with the value of its last pair. This fixes the table.
-/

namespace Deobfuscation.Table

variable {Key Value : Type} [DecidableEq Key]

theorem find_eq_none_iff {key : Key} {pairs : List (Key × Value)} :
    find key pairs = none ↔ key ∉ pairs.map Prod.fst := by
  constructor
  · intro absent present
    obtain ⟨⟨_, value⟩, member, rfl⟩ := List.mem_map.mp present
    obtain ⟨other, found⟩ := find_of_mem member
    rw [absent] at found
    cases found
  · intro fresh
    cases found : find key pairs with
    | none => rfl
    | some value => exact absurd (List.mem_map.mpr ⟨_, mem_of_find found, rfl⟩) fresh

theorem find_pairs {Item : Type} (pair : Item → Key × Value) (key : Key) (items : List Item) :
    find key (items.map pair) =
      (items.find? fun item => (pair item).1 = key).map fun item => (pair item).2 := by
  induction items with
  | nil => rfl
  | cons item rest ih =>
      by_cases same : (pair item).1 = key
      · simp [find, same]
      · simp [find, same, ih]

theorem get?_adjust (table : Table Key Value) (key wanted : Key) (change : Value → Value) :
    (table.adjust key change).get? wanted =
      (table.get? wanted).map fun value => if wanted = key then change value else value :=
  get?_mapValues _ table wanted

theorem keys_adjust (table : Table Key Value) (key : Key) (change : Value → Value) :
    (table.adjust key change).keys = table.keys := by
  simp [adjust, mapValues, keys, Function.comp_def]

/-- The value of the last pair with this key. -/
def latest (key : Key) (pairs : List (Key × Value)) : Option Value := find key pairs.reverse

theorem latest_eq_none_iff {key : Key} {pairs : List (Key × Value)} :
    latest key pairs = none ↔ key ∉ pairs.map Prod.fst := by
  rw [latest, find_eq_none_iff, List.map_reverse, List.mem_reverse]

theorem latest_concat (key wanted : Key) (value : Value) (pairs : List (Key × Value)) :
    latest wanted (pairs ++ [(key, value)]) =
      if key = wanted then some value else latest wanted pairs := by
  simp [latest, find]

/-- The table is what remains of the pairs if they are put in one after the other. -/
structure Recalls (table : Table Key Value) (pairs : List (Key × Value)) : Prop where
  keys : table.keys = (pairs.map Prod.fst).eraseDups
  values : ∀ key, table.get? key = latest key pairs

theorem eraseDups_concat (keys : List Key) (key : Key) :
    (keys ++ [key]).eraseDups =
      if key ∈ keys then keys.eraseDups else keys.eraseDups ++ [key] := by
  rw [List.eraseDups_append]
  by_cases known : key ∈ keys <;> simp [List.removeAll, known, List.eraseDups_cons]

theorem recalls_empty : (empty : Table Key Value).Recalls [] := ⟨rfl, fun _ => rfl⟩

theorem Recalls.insert {table : Table Key Value} {pairs : List (Key × Value)}
    (recalls : table.Recalls pairs) (key : Key) (value : Value) :
    (table.insert key value).Recalls (pairs ++ [(key, value)]) := by
  constructor
  · rw [keys_insert, recalls.keys, List.map_append, List.map_singleton, eraseDups_concat]
    simp only [List.mem_eraseDups]
  · intro wanted
    rw [get?_insert, latest_concat, recalls.values]

theorem recalls_ofList (pairs : List (Key × Value)) : (ofList pairs).Recalls pairs := by
  induction pairs using List.reverseRecOn with
  | nil => exact recalls_empty
  | append_singleton front pair ih =>
      have added := ih.insert pair.1 pair.2
      simpa [ofList, List.foldl_append] using added

theorem put_of_fresh {key : Key} {pairs : List (Key × Value)} (fresh : key ∉ pairs.map Prod.fst)
    (value : Value) : put key value pairs = pairs ++ [(key, value)] := by
  induction pairs with
  | nil => rfl
  | cons pair rest ih =>
      rw [List.map_cons, List.mem_cons, not_or] at fresh
      rw [put, if_neg (Ne.symm fresh.1), ih fresh.2, List.cons_append]

/-- Pairs with keys of their own are the entries of their table. -/
theorem entries_ofList {pairs : List (Key × Value)} (once : (pairs.map Prod.fst).Nodup) :
    (ofList pairs).entries = pairs := by
  induction pairs using List.reverseRecOn with
  | nil => rfl
  | append_singleton front pair ih =>
      rw [List.map_append, List.map_singleton, List.nodup_append] at once
      have fresh : pair.1 ∉ front.map Prod.fst := fun member =>
        once.2.2 _ member _ List.mem_cons_self rfl
      have last : ofList (front ++ [pair]) = (ofList front).insert pair.1 pair.2 := by
        simp [ofList, List.foldl_append]
      have added : ((ofList front).insert pair.1 pair.2).entries =
          put pair.1 pair.2 (ofList front).entries := rfl
      rw [last, added, ih once.1, put_of_fresh fresh]

theorem eraseDups_of_nodup {pairs : List (Key × Value)} (once : (pairs.map Prod.fst).Nodup) :
    (pairs.map Prod.fst).eraseDups = pairs.map Prod.fst := by
  rw [← (recalls_ofList pairs).keys, keys, entries_ofList once]

theorem latest_of_mem {pairs : List (Key × Value)} (once : (pairs.map Prod.fst).Nodup) {key : Key}
    {value : Value} (member : (key, value) ∈ pairs) : latest key pairs = some value := by
  rw [← (recalls_ofList pairs).values, get?_eq_some_iff, entries_ofList once]
  exact member

theorem map_entries (table : Table Key Value) :
    table.entries.map (Prod.map id some) = table.keys.map fun key => (key, table.get? key) := by
  rw [keys, List.map_map]
  refine List.map_congr_left fun entry member => ?_
  have found : table.get? entry.1 = some entry.2 := table.get?_eq_some_iff.mpr member
  simp [found, Prod.map]

/-- Keys and values fix a table. -/
theorem eq_of_keys_of_values {first second : Table Key Value} (keys : first.keys = second.keys)
    (values : ∀ key, first.get? key = second.get? key) : first = second := by
  have same : first.entries = second.entries := by
    have listed : first.entries.map (Prod.map id some) = second.entries.map (Prod.map id some) := by
      rw [map_entries, map_entries, keys]
      exact List.map_congr_left fun key _ => by rw [values key]
    have injective : Function.Injective (Prod.map id some : Key × Value → Key × Option Value) :=
      Function.injective_id.prodMap fun _ _ => Option.some.inj
    exact List.map_injective_iff.mpr injective listed
  cases first
  cases second
  cases same
  rfl

theorem Recalls.unique {first second : Table Key Value} {pairs : List (Key × Value)}
    (left : first.Recalls pairs) (right : second.Recalls pairs) : first = second :=
  eq_of_keys_of_values (left.keys.trans right.keys.symm) fun key =>
    (left.values key).trans (right.values key).symm

end Deobfuscation.Table
