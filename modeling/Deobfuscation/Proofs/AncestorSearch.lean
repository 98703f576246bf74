import Deobfuscation.Hierarchy
import Deobfuscation.Proofs.ClassNames
import Deobfuscation.Proofs.Runs
import Mathlib.Data.List.Perm.Subperm
import Mathlib.Logic.Relation

/-!
Searching ancestors. A search is bounded by the number of classes with parents. Without
cycles the bound is never felt: a way up does not meet a class twice, and only classes with
parents lead on. So a search gives what the class says, or else the first answer among its
parents, and a chain of classes that say nothing passes on the answer at its end.
-/

namespace Deobfuscation.Hierarchy

variable {Answer : Type} {hierarchy : Hierarchy}

def Above (hierarchy : Hierarchy) (child parent : String) : Prop :=
  parent ∈ hierarchy.parentsOf child

/-- No class is among its own ancestors. -/
def Acyclic (hierarchy : Hierarchy) : Prop :=
  ∀ name, ¬ Relation.TransGen hierarchy.Above name name

theorem mem_of_above {child parent : String} (above : hierarchy.Above child parent) :
    ∃ parents, (child, parents) ∈ hierarchy.parents.entries ∧ parent ∈ parents := by
  unfold Above parentsOf at above
  cases found : hierarchy.parents.get? child with
  | none =>
      rw [found] at above
      cases above
  | some parents =>
      rw [found, Option.getD_some] at above
      exact ⟨parents, Table.mem_of_find found, above⟩

theorem acyclic_of_rank (rank : String → Nat)
    (lower : ∀ entry ∈ hierarchy.parents.entries, ∀ parent ∈ entry.2, rank parent < rank entry.1) :
    hierarchy.Acyclic := by
  have step : ∀ child parent, hierarchy.Above child parent → rank parent < rank child := by
    intro child parent above
    obtain ⟨parents, inside, member⟩ := mem_of_above above
    exact lower _ inside parent member
  have descend : ∀ first last, Relation.TransGen hierarchy.Above first last →
      rank last < rank first := by
    intro first last path
    induction path with
    | single above => exact step _ _ above
    | tail _ above ih => exact Nat.lt_trans (step _ _ above) ih
  intro name cycle
  exact Nat.lt_irrefl _ (descend name name cycle)

theorem findSome?_congr {names : List String} {first second : String → Option Answer}
    (same : ∀ name ∈ names, first name = second name) :
    names.findSome? first = names.findSome? second := by
  induction names with
  | nil => rfl
  | cons name rest ih =>
      rw [List.findSome?_cons, List.findSome?_cons, same name List.mem_cons_self,
        ih fun other member => same other (List.mem_cons_of_mem name member)]

theorem findSome?_cons_or (own : String → Option Answer) (name : String) (rest : List String) :
    (name :: rest).findSome? own = (own name).or (rest.findSome? own) := by
  rw [List.findSome?_cons]
  cases own name <;> rfl

/-- What a class has if all its parents have it with one step less holds of a class if the steps
and the classes already passed are more than there are classes with parents. -/
theorem climb (acyclic : hierarchy.Acyclic) (Holds : Nat → String → Prop)
    (up : ∀ steps name, (∀ parent, hierarchy.Above name parent → Holds steps parent) →
      Holds (steps + 1) name)
    (steps : Nat) (passed : List String) (name : String) (distinct : passed.Nodup)
    (known : passed ⊆ hierarchy.parents.keys)
    (below : ∀ child ∈ passed, Relation.TransGen hierarchy.Above child name)
    (enough : hierarchy.size + 1 ≤ steps + passed.length) : Holds steps name := by
  -- every step up passes one more class, and passed classes are different ones with parents
  induction steps generalizing passed name with
  | zero =>
      have short : passed.length ≤ hierarchy.size := by
        have bounded := (distinct.subperm known).length_le
        simpa [Table.keys, size, Table.size] using bounded
      omega
  | succ steps ih =>
      apply up
      intro parent above
      obtain ⟨parents, inside, -⟩ := mem_of_above above
      apply ih (name :: passed) parent
      · refine List.nodup_cons.mpr ⟨?_, distinct⟩
        intro again
        exact acyclic name (below name again)
      · intro child member
        rcases List.mem_cons.mp member with rfl | earlier
        · exact List.mem_map.mpr ⟨_, inside, rfl⟩
        · exact known earlier
      · intro child member
        rcases List.mem_cons.mp member with rfl | earlier
        · exact .single above
        · exact .tail (below child earlier) above
      · rw [List.length_cons]
        omega

/-- One more step changes nothing if the steps and the classes already passed are more than there
are classes with parents. -/
theorem search_succ (acyclic : hierarchy.Acyclic) (own : String → Option Answer) (steps : Nat)
    (passed : List String) (name : String) (distinct : passed.Nodup)
    (known : passed ⊆ hierarchy.parents.keys)
    (below : ∀ child ∈ passed, Relation.TransGen hierarchy.Above child name)
    (enough : hierarchy.size + 1 ≤ steps + passed.length) :
    hierarchy.search own steps name = hierarchy.search own (steps + 1) name := by
  refine climb acyclic
    (fun steps name => hierarchy.search own steps name = hierarchy.search own (steps + 1) name)
    ?_ steps passed name distinct known below enough
  intro steps name parents
  unfold search
  split
  · rfl
  · exact findSome?_congr parents

theorem find_eq (acyclic : hierarchy.Acyclic) (own : String → Option Answer) (name : String) :
    hierarchy.find own name =
      (own name).or ((hierarchy.parentsOf name).findSome? (hierarchy.find own)) := by
  -- the parents are asked with one step less than the class
  have parents : (hierarchy.parentsOf name).findSome? (hierarchy.search own hierarchy.size) =
      (hierarchy.parentsOf name).findSome? (hierarchy.find own) := by
    apply findSome?_congr
    intro parent above
    obtain ⟨entries, inside, -⟩ := mem_of_above above
    apply search_succ acyclic own hierarchy.size [name] parent (by simp)
    · intro child member
      rw [List.mem_singleton.mp member]
      exact List.mem_map.mpr ⟨_, inside, rfl⟩
    · intro child member
      rw [List.mem_singleton.mp member]
      exact .single above
    · simp
  conv_lhs => unfold find search
  cases own name with
  | none => exact parents
  | some answer => rfl

section ClassFiles

theorem parentsOf_insert (hierarchy : Hierarchy) (name wanted : String) (parents : List String) :
    (hierarchy.insert name parents).parentsOf wanted =
      if name = wanted then parents else hierarchy.parentsOf wanted := by
  unfold insert
  split
  · rename_i none
    rw [List.isEmpty_iff.mp none]
    unfold parentsOf
    rw [Table.get?_erase]
    split <;> rfl
  · unfold parentsOf
    rw [Table.get?_insert]
    split <;> rfl

theorem addClass_eq_ok {next : Hierarchy} {file : ClassFile} :
    hierarchy.addClass file = .ok next ↔
      ∃ name, file.name = .ok name ∧
        (isPackageInfo name = true ∧ next = hierarchy ∨
          isPackageInfo name = false ∧ ∃ parents,
            parentsIn file name = .ok parents ∧ next = hierarchy.insert name parents) := by
  simp only [addClass, bind_eq_ok]
  refine exists_congr fun name => and_congr_right fun _ => ?_
  have given : ∀ result : Hierarchy,
      (pure result : Except Failure Hierarchy) = .ok next ↔ next = result := fun result =>
    ⟨fun same => (Except.ok.inj same).symm, fun same => same ▸ rfl⟩
  cases isPackageInfo name with
  | true => simp [given]
  | false => simp only [Bool.false_eq_true, if_false, bind_eq_ok, given, false_and, false_or,
      true_and]

theorem parentsOf_addClass {next : Hierarchy} {file : ClassFile} {name : String}
    (added : hierarchy.addClass file = .ok next) (other : file.name ≠ .ok name) :
    next.parentsOf name = hierarchy.parentsOf name := by
  obtain ⟨taken, named, ⟨-, rfl⟩ | ⟨-, parents, -, rfl⟩⟩ := addClass_eq_ok.mp added
  · rfl
  · have different : taken ≠ name := fun same => other (same ▸ named)
    rw [parentsOf_insert, if_neg different]

theorem parentsOf_addClasses {last : Hierarchy} {files : List ClassFile} {name : String}
    (added : files.foldlM addClass hierarchy = .ok last)
    (others : ∀ file ∈ files, file.name ≠ .ok name) :
    last.parentsOf name = hierarchy.parentsOf name := by
  induction files generalizing hierarchy with
  | nil =>
      cases added
      rfl
  | cons file rest ih =>
      rw [List.foldlM_cons, bind_eq_ok] at added
      obtain ⟨next, first, later⟩ := added
      rw [ih later fun other member => others other (List.mem_cons_of_mem file member)]
      exact parentsOf_addClass first (others file List.mem_cons_self)

/-- Among class files with different names each class has the parents that its file names. -/
theorem parentsIn_of_ofClasses {files : List ClassFile} {file : ClassFile} {name : String}
    (built : ofClasses files = .ok hierarchy)
    (distinct : files.Pairwise fun first second => first.name ≠ second.name)
    (member : file ∈ files) (named : file.name = .ok name)
    (ordinary : isPackageInfo name = false) :
    parentsIn file name = .ok (hierarchy.parentsOf name) := by
  have all : ∀ start : Hierarchy, files.foldlM addClass start = .ok hierarchy →
      parentsIn file name = .ok (hierarchy.parentsOf name) := by
    clear built
    induction files with
    | nil => cases member
    | cons head rest ih =>
        intro start added
        obtain ⟨apart, restDistinct⟩ := List.pairwise_cons.mp distinct
        rw [List.foldlM_cons, bind_eq_ok] at added
        obtain ⟨next, first, later⟩ := added
        rcases List.mem_cons.mp member with rfl | inside
        · -- later files have other names, so the parents of this one stay
          have others : ∀ other ∈ rest, other.name ≠ .ok name := by
            intro other inside same
            exact apart other inside (named.trans same.symm)
          rw [parentsOf_addClasses later others]
          obtain ⟨taken, takenName, ⟨packageInfo, -⟩ | ⟨-, parents, found, rfl⟩⟩ :=
            addClass_eq_ok.mp first
          · rw [named] at takenName
            cases takenName
            rw [ordinary] at packageInfo
            cases packageInfo
          · rw [named] at takenName
            cases takenName
            rw [parentsOf_insert, if_pos rfl]
            exact found
        · exact ih restDistinct inside next later
  exact all {} built

theorem parentsIn_super {file : ClassFile} {name above : String} {parents : List String}
    (present : file.superClass ≠ 0) (read : file.pool.className file.superClass = .ok above)
    (found : parentsIn file name = .ok parents) : ∃ interfaces, parents = above :: interfaces := by
  simp only [parentsIn, present, if_false, read, Failure.inContext, bind_eq_ok] at found
  obtain ⟨first, same, interfaces, -, rest⟩ := found
  cases same
  cases rest
  exact ⟨interfaces, rfl⟩

/-- The class of one of the files has the other class as its super class. -/
def SuperClass (files : List ClassFile) (child above : String) : Prop :=
  ∃ file ∈ files, file.name = .ok child ∧ file.superClass ≠ 0 ∧
    file.pool.className file.superClass = .ok above

/-- What is found at the end of a chain of super classes is found from its start, if no class
before the end has an answer of its own. -/
theorem find_of_superClasses {files : List ClassFile} (acyclic : hierarchy.Acyclic)
    (built : ofClasses files = .ok hierarchy)
    (distinct : files.Pairwise fun first second => first.name ≠ second.name)
    (ordinary : ∀ file ∈ files, ∀ name, file.name = .ok name → isPackageInfo name = false)
    {own : String → Option Answer} {child top : String} {answer : Answer}
    (chain : Relation.ReflTransGen
      (fun lower upper => SuperClass files lower upper ∧ own lower = none) child top)
    (found : hierarchy.find own top = some answer) : hierarchy.find own child = some answer := by
  -- from the top down, since each class passes on what is found from its super class
  induction chain using Relation.ReflTransGen.head_induction_on with
  | refl => exact found
  | head step _ ih =>
      obtain ⟨⟨file, inside, named, present, read⟩, silent⟩ := step
      have recorded :=
        parentsIn_of_ofClasses built distinct inside named (ordinary file inside _ named)
      obtain ⟨interfaces, parents⟩ := parentsIn_super present read recorded
      rw [find_eq acyclic, silent, Option.none_or, parents, List.findSome?_cons, ih]

end ClassFiles

end Deobfuscation.Hierarchy
