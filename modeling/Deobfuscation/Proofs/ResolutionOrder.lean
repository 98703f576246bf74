import Deobfuscation.Proofs.AncestorSearch
import Deobfuscation.Renaming.Renamer

/-!
The order in which ancestors are asked. A search goes up from a class depth first, and in a
hierarchy without cycles this comes to an end. It meets a class again that several classes below
have as a parent, but then it has no answer there: what it finds is the first answer in the order
of a traversal, whether this lists a class every time or only once.
-/

namespace Deobfuscation

namespace Hierarchy

variable {Answer : Type}

section Orders

variable (hierarchy : Hierarchy)

mutual

/-- A search from a class ends with this answer, or with none. -/
inductive Finds (own : String → Option Answer) : String → Option Answer → Prop where
  | own {name : String} {answer : Answer} (answers : own name = some answer) :
      Finds own name (some answer)
  | above {name : String} {found : Option Answer} (silent : own name = none)
      (parents : FindsAmong own (hierarchy.parentsOf name) found) : Finds own name found

inductive FindsAmong (own : String → Option Answer) : List String → Option Answer → Prop where
  | nil : FindsAmong own [] none
  | hit {name : String} {rest : List String} {answer : Answer}
      (here : Finds own name (some answer)) : FindsAmong own (name :: rest) (some answer)
  | miss {name : String} {rest : List String} {found : Option Answer}
      (here : Finds own name none) (later : FindsAmong own rest found) :
      FindsAmong own (name :: rest) found

end

/-- Some classes with all their ancestors, depth first. A class comes before its parents, and they
come in their order. -/
inductive InPreorder : List String → List String → Prop where
  | nil : InPreorder [] []
  | cons {name : String} {rest above others : List String}
      (parents : InPreorder (hierarchy.parentsOf name) above) (later : InPreorder rest others) :
      InPreorder (name :: rest) (name :: above ++ others)

/-- The same traversal, but a class that was seen is left out with all above it. The lists are the
classes seen before, the classes to visit, and the classes seen at the end. -/
inductive Visits : List String → List String → List String → Prop where
  | nil {seen : List String} : Visits seen [] seen
  | skip {seen rest last : List String} {name : String} (known : name ∈ seen)
      (later : Visits seen rest last) : Visits seen (name :: rest) last
  | visit {seen rest middle last : List String} {name : String} (fresh : name ∉ seen)
      (parents : Visits (seen ++ [name]) (hierarchy.parentsOf name) middle)
      (later : Visits middle rest last) : Visits seen (name :: rest) last

end Orders

variable {hierarchy : Hierarchy} {own : String → Option Answer}

/-- Something about lists of classes that can be told from the parents of the first class and from
the other classes holds of all lists: without cycles, going up ends. -/
theorem forest_induction (acyclic : hierarchy.Acyclic) {Holds : List String → Prop}
    (nil : Holds [])
    (cons : ∀ name rest, Holds (hierarchy.parentsOf name) → Holds rest → Holds (name :: rest))
    (names : List String) : Holds names := by
  -- a list only needs that it holds of the parents of each class, and these are further up
  have all : ∀ names : List String, (∀ name ∈ names, Holds (hierarchy.parentsOf name)) →
      Holds names := by
    intro names
    induction names with
    | nil => exact fun _ => nil
    | cons name rest ih =>
        intro each
        exact cons name rest (each name List.mem_cons_self)
          (ih fun other member => each other (List.mem_cons_of_mem name member))
  refine all names fun name _ => ?_
  refine climb acyclic (fun _ name => Holds (hierarchy.parentsOf name)) ?_ (hierarchy.size + 1) []
    name .nil (List.nil_subset _) nofun (Nat.le_refl _)
  intro _ name parents
  exact all _ parents

section Search

variable (acyclic : hierarchy.Acyclic)

include acyclic

theorem finds_of_parents {name : String}
    (parents : hierarchy.FindsAmong own (hierarchy.parentsOf name)
      ((hierarchy.parentsOf name).findSome? (hierarchy.find own))) :
    hierarchy.Finds own name (hierarchy.find own name) := by
  rw [find_eq acyclic]
  cases answers : own name with
  | some answer => exact .own answers
  | none => exact .above answers parents

theorem findsAmong_findSome? (own : String → Option Answer) (names : List String) :
    hierarchy.FindsAmong own names (names.findSome? (hierarchy.find own)) := by
  induction names using forest_induction acyclic with
  | nil => exact .nil
  | cons name rest parents later =>
      have here := finds_of_parents acyclic parents
      rw [findSome?_cons_or]
      cases found : hierarchy.find own name with
      | some answer => exact .hit (found ▸ here)
      | none => exact .miss (found ▸ here) later

theorem findSome?_find_eq_none_iff (own : String → Option Answer) (names : List String) :
    names.findSome? (hierarchy.find own) = none ↔
      ∀ name ∈ names, ∀ ancestor, Relation.ReflTransGen hierarchy.Above name ancestor →
        own ancestor = none := by
  induction names using forest_induction acyclic with
  | nil => simp
  | cons name rest parents later =>
      rw [findSome?_cons_or, Option.or_eq_none_iff, find_eq acyclic, Option.or_eq_none_iff, parents,
        later, List.forall_mem_cons]
      refine and_congr_left fun _ => ⟨?_, ?_⟩
      · rintro ⟨silent, above⟩ ancestor path
        rcases path.cases_head with rfl | ⟨parent, step, rest⟩
        · exact silent
        · exact above parent step ancestor rest
      · intro all
        exact ⟨all name .refl, fun parent step ancestor path => all ancestor (.head step path)⟩

theorem find_eq_none_iff (own : String → Option Answer) (name : String) :
    hierarchy.find own name = none ↔
      ∀ ancestor, Relation.ReflTransGen hierarchy.Above name ancestor → own ancestor = none := by
  have single := findSome?_find_eq_none_iff acyclic own [name]
  simpa using single

theorem exists_inPreorder (names : List String) : ∃ order, hierarchy.InPreorder names order := by
  induction names using forest_induction acyclic with
  | nil => exact ⟨[], .nil⟩
  | cons name rest parents later =>
      obtain ⟨above, upwards⟩ := parents
      obtain ⟨others, onwards⟩ := later
      exact ⟨_, .cons upwards onwards⟩

theorem InPreorder.findSome?_eq {names order : List String}
    (preorder : hierarchy.InPreorder names order) (own : String → Option Answer) :
    names.findSome? (hierarchy.find own) = order.findSome? own := by
  induction preorder with
  | nil => rfl
  | @cons name rest above others _ _ parents later =>
      rw [findSome?_cons_or, find_eq acyclic, parents, later, List.cons_append, findSome?_cons_or,
        List.findSome?_append, Option.or_assoc]

theorem exists_visits (names : List String) :
    ∀ seen, ∃ last, hierarchy.Visits seen names last := by
  induction names using forest_induction acyclic with
  | nil => exact fun seen => ⟨seen, .nil⟩
  | cons name rest parents later =>
      intro seen
      by_cases known : name ∈ seen
      · obtain ⟨last, onwards⟩ := later seen
        exact ⟨last, .skip known onwards⟩
      · obtain ⟨middle, upwards⟩ := parents (seen ++ [name])
        obtain ⟨last, onwards⟩ := later middle
        exact ⟨last, .visit known upwards onwards⟩

end Search

namespace Visits

variable {seen names last : List String}

theorem nodup (visits : hierarchy.Visits seen names last) (distinct : seen.Nodup) :
    last.Nodup := by
  induction visits with
  | nil => exact distinct
  | skip _ _ later => exact later distinct
  | visit fresh _ _ parents later =>
      apply later
      apply parents
      rw [List.perm_append_singleton _ _ |>.nodup_iff]
      exact List.nodup_cons.mpr ⟨fresh, distinct⟩

theorem seen_subset (visits : hierarchy.Visits seen names last) : seen ⊆ last := by
  induction visits with
  | nil => exact fun _ member => member
  | skip _ _ later => exact later
  | visit _ _ _ parents later =>
      intro known member
      exact later (parents (List.mem_append_left _ member))

theorem names_subset (visits : hierarchy.Visits seen names last) : names ⊆ last := by
  induction visits with
  | nil => exact List.nil_subset _
  | skip known onwards later =>
      exact List.cons_subset.mpr ⟨onwards.seen_subset known, later⟩
  | visit _ upwards onwards _ later =>
      refine List.cons_subset.mpr ⟨onwards.seen_subset (upwards.seen_subset ?_), later⟩
      exact List.mem_append_right _ List.mem_cons_self

theorem parents_mem (visits : hierarchy.Visits seen names last) :
    ∀ name ∈ last, name ∈ seen ∨ ∀ parent, hierarchy.Above name parent → parent ∈ last := by
  induction visits with
  | nil => exact fun name member => Or.inl member
  | skip _ _ later => exact later
  | @visit seen rest middle last name _ upwards onwards parents later =>
      intro other member
      rcases later other member with inside | done
      · rcases parents other inside with known | done
        · rcases List.mem_append.mp known with earlier | here
          · exact Or.inl earlier
          · rw [List.mem_singleton.mp here]
            exact Or.inr fun parent above => onwards.seen_subset (upwards.names_subset above)
        · exact Or.inr fun parent above => onwards.seen_subset (done parent above)
      · exact Or.inr done

theorem reaches (visits : hierarchy.Visits seen names last) :
    ∀ ancestor ∈ last, ancestor ∈ seen ∨
      ∃ name ∈ names, Relation.ReflTransGen hierarchy.Above name ancestor := by
  induction visits with
  | nil => exact fun ancestor member => Or.inl member
  | skip _ _ later =>
      intro ancestor member
      refine (later ancestor member).imp_right ?_
      rintro ⟨name, inside, path⟩
      exact ⟨name, List.mem_cons_of_mem _ inside, path⟩
  | @visit seen rest middle last name _ _ _ parents later =>
      intro ancestor member
      rcases later ancestor member with inside | ⟨other, further, path⟩
      · rcases parents ancestor inside with known | ⟨parent, above, path⟩
        · rcases List.mem_append.mp known with earlier | here
          · exact Or.inl earlier
          · rw [List.mem_singleton.mp here]
            exact Or.inr ⟨name, List.mem_cons_self, .refl⟩
        · exact Or.inr ⟨name, List.mem_cons_self, .head above path⟩
      · exact Or.inr ⟨other, List.mem_cons_of_mem _ further, path⟩

theorem mem_iff {owner ancestor : String} (visits : hierarchy.Visits [] [owner] last) :
    ancestor ∈ last ↔ Relation.ReflTransGen hierarchy.Above owner ancestor := by
  constructor
  · intro member
    rcases visits.reaches ancestor member with nowhere | ⟨name, inside, path⟩
    · cases nowhere
    · rw [← List.mem_singleton.mp inside]
      exact path
  · intro path
    induction path with
    | refl => exact visits.names_subset List.mem_cons_self
    | @tail lower upper _ above ih =>
        rcases visits.parents_mem lower ih with nowhere | done
        · cases nowhere
        · exact done upper above

end Visits

/-- While classes are visited: who was seen has all parents seen, or is on the way up to each class
that is to be visited. -/
def OnTheWay (hierarchy : Hierarchy) (seen names : List String) : Prop :=
  ∀ other ∈ seen, (∀ parent, hierarchy.Above other parent → parent ∈ seen) ∨
    ∀ name ∈ names, Relation.TransGen hierarchy.Above other name

theorem OnTheWay.later {seen rest : List String} {name : String}
    (way : hierarchy.OnTheWay seen (name :: rest)) : hierarchy.OnTheWay seen rest := by
  intro other member
  exact (way other member).imp_right fun below next inside =>
    below next (List.mem_cons_of_mem name inside)

theorem OnTheWay.up {seen rest : List String} {name : String}
    (way : hierarchy.OnTheWay seen (name :: rest)) :
    hierarchy.OnTheWay (seen ++ [name]) (hierarchy.parentsOf name) := by
  intro other member
  rcases List.mem_append.mp member with earlier | here
  · rcases way other earlier with done | below
    · exact Or.inl fun parent above => List.mem_append_left _ (done parent above)
    · exact Or.inr fun parent above => .tail (below name List.mem_cons_self) above
  · rw [List.mem_singleton.mp here]
    exact Or.inr fun parent above => .single above

theorem OnTheWay.across {seen rest middle : List String} {name : String}
    (way : hierarchy.OnTheWay seen (name :: rest))
    (upwards : hierarchy.Visits (seen ++ [name]) (hierarchy.parentsOf name) middle) :
    hierarchy.OnTheWay middle rest := by
  intro other member
  rcases upwards.parents_mem other member with known | done
  · rcases List.mem_append.mp known with earlier | here
    · refine (way.later other earlier).imp_left fun done parent above => ?_
      exact upwards.seen_subset (List.mem_append_left _ (done parent above))
    · rw [List.mem_singleton.mp here]
      exact Or.inl fun parent above => upwards.names_subset above
  · exact Or.inl done

theorem OnTheWay.ancestors (acyclic : hierarchy.Acyclic) {seen rest : List String} {name : String}
    (way : hierarchy.OnTheWay seen (name :: rest)) (known : name ∈ seen) {ancestor : String}
    (path : Relation.ReflTransGen hierarchy.Above name ancestor) : ancestor ∈ seen := by
  induction path with
  | refl => exact known
  | @tail lower upper path above ih =>
      rcases way lower ih with done | below
      · exact done upper above
      · exact absurd (Relation.TransGen.trans_right path (below name List.mem_cons_self))
          (acyclic name)

/-- Leaving out classes that were seen does not change what is found first. -/
theorem Visits.findSome?_eq (acyclic : hierarchy.Acyclic) {seen names last : List String}
    (visits : hierarchy.Visits seen names last) (way : hierarchy.OnTheWay seen names)
    (own : String → Option Answer) :
    last.findSome? own = (seen.findSome? own).or (names.findSome? (hierarchy.find own)) := by
  induction visits with
  | nil => rw [List.findSome?_nil, Option.or_none]
  | @skip seen rest last name known _ later =>
      rw [later way.later, findSome?_cons_or]
      cases answered : seen.findSome? own with
      | some answer => rfl
      | none =>
          have silent : hierarchy.find own name = none := by
            rw [find_eq_none_iff acyclic]
            intro ancestor path
            exact List.findSome?_eq_none_iff.mp answered ancestor (way.ancestors acyclic known path)
          rw [silent, Option.none_or, Option.none_or]
  | @visit seen rest middle last name _ upwards _ parents later =>
      rw [later (way.across upwards), parents way.up, List.findSome?_append, findSome?_cons_or,
        findSome?_cons_or, find_eq acyclic, List.findSome?_nil, Option.or_none, Option.or_assoc,
        Option.or_assoc, Option.or_assoc]

/-- What a search from a class finds is the first answer of the class and its ancestors. The
recursion of the search ends; the order is that of a depth first traversal, in which a class may
be listed each time or only once. -/
structure FindsFirst (hierarchy : Hierarchy) (own : String → Option Answer) (owner : String)
    (found : Option Answer) : Prop where
  ends : hierarchy.Finds own owner found
  traversed : ∃ order, hierarchy.InPreorder [owner] order
  first : ∀ order, hierarchy.InPreorder [owner] order → found = order.findSome? own
  visited : ∃ order, hierarchy.Visits [] [owner] order
  once : ∀ order, hierarchy.Visits [] [owner] order → order.Nodup ∧
    (∀ ancestor, ancestor ∈ order ↔ Relation.ReflTransGen hierarchy.Above owner ancestor) ∧
    found = order.findSome? own
  none_iff : found = none ↔
    ∀ ancestor, Relation.ReflTransGen hierarchy.Above owner ancestor → own ancestor = none

theorem findsFirst_find (acyclic : hierarchy.Acyclic) (own : String → Option Answer)
    (owner : String) : hierarchy.FindsFirst own owner (hierarchy.find own owner) := by
  have single : [owner].findSome? (hierarchy.find own) = hierarchy.find own owner := by
    rw [findSome?_cons_or, List.findSome?_nil, Option.or_none]
  constructor
  · exact finds_of_parents acyclic (findsAmong_findSome? acyclic own _)
  · exact exists_inPreorder acyclic [owner]
  · intro order preorder
    rw [← single, preorder.findSome?_eq acyclic]
  · exact exists_visits acyclic [owner] []
  · intro order visits
    refine ⟨visits.nodup .nil, fun _ => visits.mem_iff, ?_⟩
    rw [visits.findSome?_eq acyclic nofun, single, List.findSome?_nil, Option.none_or]
  · exact find_eq_none_iff acyclic own owner

end Hierarchy

namespace Renamer

/-- Fields and methods get the name from the first class that maps them, going up from the owner
depth first, and keep their name exactly if neither the owner nor an ancestor maps them. -/
theorem members_found_first (renamer : Renamer) (acyclic : renamer.hierarchy.Acyclic)
    (owner name descriptor : String) :
    renamer.hierarchy.FindsFirst (renamer.ownField? name) owner (renamer.findField? owner name) ∧
      renamer.field owner name = (renamer.findField? owner name).getD name ∧
      renamer.hierarchy.FindsFirst (renamer.ownMethod? name descriptor) owner
        (renamer.findMethod? owner name descriptor) ∧
      renamer.method owner name descriptor =
        (renamer.findMethod? owner name descriptor).getD name :=
  ⟨Hierarchy.findsFirst_find acyclic _ owner, rfl, Hierarchy.findsFirst_find acyclic _ owner, rfl⟩

/-- Both parents of the class have the same parent, and one of them maps what this one maps. -/
def diamondHierarchy : Hierarchy :=
  ((Hierarchy.insert {} "d" ["b", "c"]).insert "b" ["a"]).insert "c" ["a"]

def diamondMappings : Mappings := .ofClasses
  [{ originalName := "q/C", obfuscatedName := "c", fields := .ofList [("f", "side")] },
    { originalName := "q/A", obfuscatedName := "a", fields := .ofList [("f", "top")],
      methods := .ofList [(⟨"f", "()I"⟩, "run")] }]

/-- The field and one overload of the method come from the parent of the parents, which is reached
through the first of these before the second one is asked. Nothing maps the other overload. -/
theorem members_found_first_diamond :
    diamondHierarchy.FindsFirst ((create diamondMappings diamondHierarchy).ownField? "f") "d"
        (some "top") ∧
      (create diamondMappings diamondHierarchy).field "d" "f" = "top" ∧
      diamondHierarchy.FindsFirst ((create diamondMappings diamondHierarchy).ownMethod? "f" "()I")
        "d" (some "run") ∧
      (create diamondMappings diamondHierarchy).method "d" "f" "()I" = "run" ∧
      diamondHierarchy.FindsFirst ((create diamondMappings diamondHierarchy).ownMethod? "f" "()V")
        "d" none ∧
      (create diamondMappings diamondHierarchy).method "d" "f" "()V" = "f" := by
  have acyclic : diamondHierarchy.Acyclic := Hierarchy.acyclic_of_rank
    (fun name => if name = "d" then 2 else if name = "a" then 0 else 1) (by decide +kernel)
  obtain ⟨field, fieldName, method, methodName⟩ :=
    members_found_first (create diamondMappings diamondHierarchy) acyclic "d" "f" "()I"
  obtain ⟨-, -, other, otherName⟩ :=
    members_found_first (create diamondMappings diamondHierarchy) acyclic "d" "f" "()V"
  have top : (create diamondMappings diamondHierarchy).findField? "d" "f" = some "top" := by
    decide +kernel
  have run : (create diamondMappings diamondHierarchy).findMethod? "d" "f" "()I" = some "run" := by
    decide +kernel
  have missing : (create diamondMappings diamondHierarchy).findMethod? "d" "f" "()V" = none := by
    decide +kernel
  rw [top] at field fieldName
  rw [run] at method methodName
  rw [missing] at other otherName
  exact ⟨field, fieldName, method, methodName, other, otherName⟩

end Renamer

end Deobfuscation
