import Deobfuscation.Renaming.Editing
import Deobfuscation.Renaming.Renamer

/-!
Renaming in the pool. Class constants and descriptors come first. A member
reference is found by its old name and type, so these are noted before anything
changes. Constants that are added on the way have new names already and are not
looked at.
-/

namespace Deobfuscation

/-- The names and types of a pool by index, as far as they are texts. -/
def Pool.namesAndTypes (pool : Pool) : Bindings UInt16 (String × String) :=
  Bindings.ofList <| pool.entries.filterMap fun entry =>
    match entry.2 with
    | .nameAndType name descriptor =>
        match pool.text name, pool.text descriptor with
        | .ok name, .ok descriptor => some (entry.1, name, descriptor)
        | _, _ => none
    | _ => none

namespace Renamer

/-- Maps the class names in the descriptor or signature at an index, and gives the index of
the result. -/
def descriptorAt (renamer : Renamer) (index : UInt16) : Edit UInt16 := do
  let text ← Edit.text index
  Edit.retarget index text (renamer.signature text)

def classConstant (renamer : Renamer) (index : UInt16) : Edit Unit := do
  match ← Edit.constant? index with
  | some (.className name) =>
      let text ← Edit.inContext (.classConstant index) (Edit.text name)
      let target ← Edit.retarget name text (renamer.className text)
      Edit.replace index (.className target)
  | _ => return

def nameAndTypeConstant (renamer : Renamer) (known : Bindings UInt16 (String × String))
    (index : UInt16) : Edit Unit := do
  match ← Edit.constant? index with
  | some (.nameAndType name descriptor) =>
      let text ← Edit.inContext (.nameAndTypeConstant index) (Edit.text descriptor)
      let mapped := renamer.signature text
      let target ← Edit.retarget descriptor text mapped
      if target ≠ descriptor then
        match known.get? index with
        | some (nameText, _) =>
            modify fun editing =>
              { editing with interner := editing.interner.moved index nameText text mapped }
        | none => pure ()
        Edit.replace index (.nameAndType name target)
  | _ => return

def reference (renamer : Renamer) (known : Bindings UInt16 (String × String)) (inside : String)
    (kind : MemberKind) (owner pair : UInt16) : Edit UInt16 := do
  -- the class constant has its new name already
  let owner := renamer.obfuscatedName (← Edit.className owner)
  match known.get? pair with
  | none => throw { cause := .noNameAndType pair }
  | some (name, descriptor) =>
      let newDescriptor := renamer.signature descriptor
      let newName := renamer.member kind owner name newDescriptor
      if newName = name ∧ newDescriptor = descriptor then return pair
      else
        Edit.note (.reference inside owner (name ++ descriptor) (newName ++ newDescriptor))
        Edit.internPair newName newDescriptor

def referenceConstant (renamer : Renamer) (known : Bindings UInt16 (String × String))
    (inside : String) (index : UInt16) : Edit Unit := do
  match ← Edit.constant? index with
  | some (.memberRef kind owner pair) =>
      let target ← Edit.inContext (.memberReference index)
        (renamer.reference known inside kind owner pair)
      Edit.replace index (.memberRef kind owner target)
  | some (.methodType descriptor) =>
      let target ← Edit.inContext (.methodTypeConstant index) (renamer.descriptorAt descriptor)
      Edit.replace index (.methodType target)
  | _ => return

def constants (renamer : Renamer) (inside : String) : Edit Unit := do
  let pool := (← get).pool
  let known := pool.namesAndTypes
  let stop := pool.nextIndex
  Edit.forIndices stop renamer.classConstant
  Edit.forIndices stop (renamer.nameAndTypeConstant known)
  Edit.forIndices stop (renamer.referenceConstant known inside)

end Renamer

end Deobfuscation
