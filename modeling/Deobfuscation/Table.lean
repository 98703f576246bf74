/-!
Tables that remember the order in which keys first came. A key occurs once:
giving it again replaces the value and keeps the place, so a listing of a table
always has the order of the file it was read from.
-/

namespace Deobfuscation

/-- Entries in order of first insertion, each key once. -/
structure Table (Key Value : Type) where
  entries : List (Key × Value)
  distinct : (entries.map Prod.fst).Nodup

namespace Table

variable {Key Value Other : Type}

def empty : Table Key Value := ⟨[], List.Pairwise.nil⟩

instance : Inhabited (Table Key Value) := ⟨empty⟩

def keys (table : Table Key Value) : List Key := table.entries.map Prod.fst

def values (table : Table Key Value) : List Value := table.entries.map Prod.snd

def size (table : Table Key Value) : Nat := table.entries.length

def isEmpty (table : Table Key Value) : Bool := table.entries.isEmpty

def mapValues (change : Key → Value → Other) (table : Table Key Value) : Table Key Other where
  entries := table.entries.map fun entry => (entry.1, change entry.1 entry.2)
  distinct := by simpa [Function.comp_def] using table.distinct

variable [DecidableEq Key]

def find (key : Key) : List (Key × Value) → Option Value
  | [] => none
  | entry :: rest => if entry.1 = key then some entry.2 else find key rest

def get? (table : Table Key Value) (key : Key) : Option Value := find key table.entries

def contains (table : Table Key Value) (key : Key) : Bool := (table.get? key).isSome

/-- Replaces the first entry of the key, or adds one at the end. -/
def put (key : Key) (value : Value) : List (Key × Value) → List (Key × Value)
  | [] => [(key, value)]
  | entry :: rest => if entry.1 = key then (key, value) :: rest else entry :: put key value rest

theorem keys_put (key : Key) (value : Value) (entries : List (Key × Value)) :
    (put key value entries).map Prod.fst =
      if key ∈ entries.map Prod.fst then entries.map Prod.fst
      else entries.map Prod.fst ++ [key] := by
  induction entries with
  | nil => simp [put]
  | cons entry rest ih =>
      by_cases same : entry.1 = key
      · simp [put, same]
      · have other : ¬ key = entry.1 := fun equal => same equal.symm
        simp only [put, same, ↓reduceIte, List.map_cons, List.mem_cons, other, false_or, ih]
        split <;> simp

theorem find_put (key wanted : Key) (value : Value) (entries : List (Key × Value)) :
    find wanted (put key value entries) =
      if key = wanted then some value else find wanted entries := by
  induction entries with
  | nil => simp [put, find]
  | cons entry rest ih =>
      by_cases same : entry.1 = key
      · subst same
        by_cases hit : entry.1 = wanted <;> simp [put, find, hit]
      · by_cases hit : entry.1 = wanted
        · subst hit
          simp [put, find, same, Ne.symm same]
        · simp [put, find, same, hit, ih]

/-- Adds an entry, or replaces the value of a key that is there already. -/
def insert (table : Table Key Value) (key : Key) (value : Value) : Table Key Value where
  entries := put key value table.entries
  distinct := by
    rw [keys_put]
    split
    · exact table.distinct
    · rename_i absent
      exact List.nodup_append.mpr ⟨table.distinct, by simp, by
        intro other member last same equal
        exact absent (by simpa [List.mem_singleton.mp same ▸ equal] using member)⟩

/-- Removes the entry of a key; the others keep their order. -/
def erase (table : Table Key Value) (key : Key) : Table Key Value where
  entries := table.entries.filter fun entry => entry.1 ≠ key
  distinct := table.distinct.sublist (List.filter_sublist.map Prod.fst)

def adjust (table : Table Key Value) (key : Key) (change : Value → Value) : Table Key Value :=
  table.mapValues fun other value => if other = key then change value else value

def ofList (pairs : List (Key × Value)) : Table Key Value :=
  pairs.foldl (fun table pair => table.insert pair.1 pair.2) empty

@[simp] theorem get?_empty (key : Key) : (empty : Table Key Value).get? key = none := rfl

theorem get?_insert (table : Table Key Value) (key wanted : Key) (value : Value) :
    (table.insert key value).get? wanted =
      if key = wanted then some value else table.get? wanted :=
  find_put key wanted value table.entries

theorem keys_insert (table : Table Key Value) (key : Key) (value : Value) :
    (table.insert key value).keys =
      if key ∈ table.keys then table.keys else table.keys ++ [key] :=
  keys_put key value table.entries

theorem find_filter (key wanted : Key) (entries : List (Key × Value)) :
    find wanted (entries.filter fun entry => entry.1 ≠ key) =
      if key = wanted then none else find wanted entries := by
  induction entries with
  | nil => simp [find]
  | cons entry rest ih =>
      by_cases same : entry.1 = key
      · subst same
        by_cases hit : entry.1 = wanted <;> simpa [find, hit] using ih
      · by_cases hit : entry.1 = wanted
        · subst hit
          simp [find, same, Ne.symm same]
        · simpa [find, same, hit] using ih

theorem get?_erase (table : Table Key Value) (key wanted : Key) :
    (table.erase key).get? wanted = if key = wanted then none else table.get? wanted :=
  find_filter key wanted table.entries

end Table

end Deobfuscation
