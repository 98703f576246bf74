import Deobfuscation.ClassFile.Texts
import Deobfuscation.Table

/-!
The direct parents of classes, the super class first. Classes without recorded
parents have no entry. A member is searched in a class and then, depth first, in
its parents.
-/

namespace Deobfuscation

structure Hierarchy where
  parents : Table String (List String) := .empty

namespace Hierarchy

def insert (hierarchy : Hierarchy) (name : String) (parents : List String) : Hierarchy :=
  if parents.isEmpty then ⟨hierarchy.parents.erase name⟩
  else ⟨hierarchy.parents.insert name parents⟩

def parentsOf (hierarchy : Hierarchy) (name : String) : List String :=
  (hierarchy.parents.get? name).getD []

def size (hierarchy : Hierarchy) : Nat := hierarchy.parents.size

/-- Classes that only carry notes on a package. -/
def isPackageInfo (name : String) : Bool := "package-info".toList.isSuffixOf name.toList

def parentsIn (file : ClassFile) (name : String) : Except Failure (List String) := do
  let above ←
    if file.superClass = 0 then pure []
    else (Failure.inContext (.superClass name) (file.pool.className file.superClass)).map ([·])
  let interfaces ← file.interfaces.mapM fun index =>
    Failure.inContext (.interface name) (file.pool.className index)
  return above ++ interfaces

def addClass (hierarchy : Hierarchy) (file : ClassFile) : Except Failure Hierarchy := do
  let name ← file.name
  if isPackageInfo name then return hierarchy
  else return hierarchy.insert name (← parentsIn file name)

def ofClasses (files : List ClassFile) : Except Failure Hierarchy := files.foldlM addClass {}

/-- The first answer of a class or its ancestors, at most so many steps up. -/
def search {Answer : Type} (hierarchy : Hierarchy) (own : String → Option Answer) :
    Nat → String → Option Answer
  | 0, _ => none
  | steps + 1, name =>
      match own name with
      | some answer => some answer
      | none => (hierarchy.parentsOf name).findSome? (search hierarchy own steps)

/-- The first answer of a class or its ancestors. Only classes with parents lead on, so a way up
without repetition has at most one class more than the hierarchy has entries. -/
def find {Answer : Type} (hierarchy : Hierarchy) (own : String → Option Answer) (name : String) :
    Option Answer :=
  hierarchy.search own (hierarchy.size + 1) name

end Hierarchy

end Deobfuscation
