import Deobfuscation.Renaming.Renamer

/-!
Class names there and back. A class constant is renamed before the members that it owns
are looked up, so the owner is found by going back from its original name. This leads to
the class it started from exactly if the class table says so in both directions.
-/

namespace Deobfuscation

namespace Table

variable {Key Value Other : Type} [DecidableEq Key]

theorem mem_of_find {key : Key} {value : Value} {entries : List (Key × Value)}
    (found : find key entries = some value) : (key, value) ∈ entries := by
  induction entries with
  | nil => cases found
  | cons entry rest ih =>
      unfold find at found
      split at found
      · rename_i same
        cases found
        subst same
        exact List.mem_cons_self
      · exact List.mem_cons_of_mem entry (ih found)

theorem find_of_mem {key : Key} {value : Value} {entries : List (Key × Value)}
    (member : (key, value) ∈ entries) : ∃ other, find key entries = some other := by
  induction entries with
  | nil => cases member
  | cons entry rest ih =>
      unfold find
      split
      · exact ⟨_, rfl⟩
      · rename_i different
        rcases List.mem_cons.mp member with head | tail
        · subst head
          exact absurd rfl different
        · exact ih tail

/-- A key occurs once, so its entry is what is found. -/
theorem get?_eq_some_iff (table : Table Key Value) {key : Key} {value : Value} :
    table.get? key = some value ↔ (key, value) ∈ table.entries := by
  constructor
  · exact mem_of_find
  · have once : ∀ entries : List (Key × Value), (entries.map Prod.fst).Nodup →
        (key, value) ∈ entries → find key entries = some value := by
      intro entries distinct member
      induction entries with
      | nil => cases member
      | cons entry rest ih =>
          obtain ⟨fresh, tailDistinct⟩ := List.nodup_cons.mp distinct
          rcases List.mem_cons.mp member with head | tail
          · subst head
            simp [find]
          · have other : entry.1 ≠ key := by
              intro same
              exact fresh (List.mem_map.mpr ⟨(key, value), tail, same.symm⟩)
            simp only [find, other, if_false]
            exact ih tailDistinct tail
    exact once table.entries table.distinct

theorem find_map (change : Key → Value → Other) (key : Key) (entries : List (Key × Value)) :
    find key (entries.map fun entry => (entry.1, change entry.1 entry.2)) =
      (find key entries).map (change key) := by
  induction entries with
  | nil => rfl
  | cons entry rest ih =>
      simp only [List.map_cons, find]
      split
      · rename_i same
        subst same
        rfl
      · exact ih

theorem get?_mapValues (change : Key → Value → Other) (table : Table Key Value) (key : Key) :
    (table.mapValues change).get? key = (table.get? key).map (change key) :=
  find_map change key table.entries

/-- Of several pairs with one key the last one counts. -/
theorem get?_ofList (pairs : List (Key × Value)) (key : Key) :
    (ofList pairs).get? key = find key pairs.reverse := by
  have step : ∀ reversed : List (Key × Value),
      (ofList reversed.reverse).get? key = find key reversed := by
    intro reversed
    induction reversed with
    | nil => rfl
    | cons pair rest ih =>
        rw [ofList] at ih ⊢
        rw [List.reverse_cons, List.foldl_append, List.foldl_cons, List.foldl_nil, get?_insert, ih]
        rfl
  simpa using step pairs.reverse

end Table

namespace Mappings

theorem originalName?_eq_some_iff {mappings : Mappings} {name original : String} :
    mappings.originalName? name = some original ↔
      ∃ mapping, (name, mapping) ∈ mappings.classes.entries ∧ mapping.originalName = original := by
  simp only [originalName?, get?, Option.map_eq_some_iff, Table.get?_eq_some_iff]

theorem originalName?_of_inverse {mappings : Mappings} {original name : String}
    (found : mappings.inverseClassNames.get? original = some name) :
    mappings.originalName? name = some original := by
  rw [inverseClassNames, Table.get?_ofList] at found
  have member := List.mem_reverse.mp (Table.mem_of_find found)
  obtain ⟨entry, inside, same⟩ := List.mem_map.mp member
  cases same
  exact originalName?_eq_some_iff.mpr ⟨entry.2, inside, rfl⟩

theorem inverse_of_originalName? {mappings : Mappings} {original name : String}
    (mapped : mappings.originalName? name = some original) :
    ∃ other, mappings.inverseClassNames.get? original = some other := by
  obtain ⟨mapping, inside, same⟩ := originalName?_eq_some_iff.mp mapped
  rw [inverseClassNames, Table.get?_ofList]
  apply Table.find_of_mem
  rw [List.mem_reverse]
  exact List.mem_map.mpr ⟨(name, mapping), inside, by rw [same]⟩

/-- The new name of a class is that of no other class: the class is mapped and no other class has
its original name, or it is not mapped and its name is no original name. -/
def Unambiguous (mappings : Mappings) (name : String) : Prop :=
  match mappings.originalName? name with
  | some original => ∀ other, mappings.originalName? other = some original → other = name
  | none => ∀ other, mappings.originalName? other ≠ some name

theorem unambiguous_iff {mappings : Mappings} {name : String} :
    mappings.Unambiguous name ↔ ∀ entry ∈ mappings.classes.entries,
      entry.2.originalName = (mappings.originalName? name).getD name → entry.1 = name := by
  unfold Unambiguous
  split
  · rename_i original mapped
    rw [mapped, Option.getD_some]
    constructor
    · intro unique entry inside same
      exact unique entry.1 (originalName?_eq_some_iff.mpr ⟨entry.2, inside, same⟩)
    · intro unique other found
      obtain ⟨mapping, inside, same⟩ := originalName?_eq_some_iff.mp found
      exact unique (other, mapping) inside same
  · rename_i unmapped
    rw [unmapped, Option.getD_none]
    constructor
    · intro never entry inside same
      exact absurd (originalName?_eq_some_iff.mpr ⟨entry.2, inside, same⟩) (never entry.1)
    · intro unique other found
      obtain ⟨mapping, inside, same⟩ := originalName?_eq_some_iff.mp found
      have here : other = name := unique (other, mapping) inside same
      rw [here, unmapped] at found
      cases found

instance (mappings : Mappings) (name : String) : Decidable (mappings.Unambiguous name) :=
  decidable_of_iff _ unambiguous_iff.symm

end Mappings

namespace Renamer

/-- The class under whose name the members of a renamed owner are looked up. -/
def ownerName (renamer : Renamer) (owner : String) : String :=
  renamer.obfuscatedName (renamer.className owner)

/-- The way to the new name of a class and back ends at the class. -/
theorem ownerName_eq {mappings : Mappings} {name : String} (hierarchy : Hierarchy)
    (plain : name.toList.head? ≠ some '[') (unambiguous : mappings.Unambiguous name) :
    (create mappings hierarchy).ownerName name = name := by
  unfold Mappings.Unambiguous at unambiguous
  simp only [ownerName, obfuscatedName, className, create, plain, if_false]
  split at unambiguous
  · rename_i original mapped
    rw [mapped, Option.getD_some]
    obtain ⟨other, found⟩ := Mappings.inverse_of_originalName? mapped
    rw [found, Option.getD_some]
    exact unambiguous other (Mappings.originalName?_of_inverse found)
  · rename_i unmapped
    rw [unmapped, Option.getD_none]
    cases found : mappings.inverseClassNames.get? name with
    | none => rfl
    | some other =>
        exact absurd (Mappings.originalName?_of_inverse found) (unambiguous other)

end Renamer

end Deobfuscation
