import Deobfuscation.Renaming.Constants
import Deobfuscation.Text.Cut

/-!
Renaming a whole class file: its constants, then its attributes, fields and methods.
Nothing but the indices of names and descriptors changes, except that tables of
generic local variable types are dropped.
-/

namespace Deobfuscation

def obfuscationMark : Char := '☃'

namespace Renamer

/-- What follows the outer name and a `$` in the inner name. -/
def simpleName? (outer inner : String) : Option String :=
  (Text.stripStart? (outer.toList ++ ['$']) inner.toList).map String.ofList

def innerClass (inside : String) (entry : InnerClass) : Edit InnerClass := do
  if entry.outer = 0 ∨ entry.inner = 0 then return entry
  else
    let outer ← Edit.className entry.outer
    let inner ← Edit.className entry.inner
    match simpleName? outer inner with
    | none =>
        Edit.note (.innerNameKept inside inner outer)
        return entry
    | some simple =>
        match (← get).pool.text entry.name with
        | .ok old => return { entry with name := ← Edit.retarget entry.name old simple }
        | .error _ => return { entry with name := ← Edit.internText simple }

def classAttribute (renamer : Renamer) (inside : String) : Attribute → Edit Attribute
  | .signature name index =>
      return .signature name (← Edit.inContext .classSignature (renamer.descriptorAt index))
  | .innerClasses name classes =>
      return .innerClasses name (← classes.mapM fun entry =>
        Edit.inContext (.innerClass entry) (innerClass inside entry))
  | other => return other

def fieldAttribute (renamer : Renamer) (field : String) : Attribute → Edit Attribute
  | .signature name index =>
      return .signature name
        (← Edit.inContext (.fieldSignature field) (renamer.descriptorAt index))
  | other => return other

def fieldMember (renamer : Renamer) (inside : String) (field : Member) : Edit Member := do
  let text ← Edit.text field.name
  let name ← Edit.retarget field.name text (renamer.declaredField inside text)
  let descriptor ← Edit.inContext (.fieldDescriptor text) (renamer.descriptorAt field.descriptor)
  let attributes ← field.attributes.mapM (renamer.fieldAttribute text)
  return { field with name, descriptor, attributes }

/-- The new name of a local variable: made up from positions if the old one has the mark. -/
def localName (ordinal position : Nat) (name : String) : String :=
  if name.toList.contains obfuscationMark then s!"local{ordinal}_{position}" else name

def localVariable (renamer : Renamer) (method : String) (ordinal : Nat) (item : Local × Nat) :
    Edit Local := do
  let (entry, position) := item
  let text ← Edit.inContext (.localName method) (Edit.text entry.name)
  let name ← Edit.retarget entry.name text (localName ordinal position text)
  let type ← Edit.inContext (.localType text method) (renamer.descriptorAt entry.type)
  return { entry with name, type }

def codeAttribute (renamer : Renamer) (method : String) (ordinal : Nat) :
    Attribute → Edit Attribute
  | .localVariables name table =>
      return .localVariables name (← table.zipIdx.mapM (renamer.localVariable method ordinal))
  | other => return other

/-- Tables of generic types are not mapped, so they have to go. -/
def keepsInCode (item : Attribute) : Bool := item.kind ≠ .localVariableTypes

def methodAttribute (renamer : Renamer) (method : String) (ordinal : Nat) :
    Attribute → Edit Attribute
  | .code name maxStack maxLocals body handlers attributes =>
      return .code name maxStack maxLocals body handlers
        (← (attributes.filter keepsInCode).mapM (renamer.codeAttribute method ordinal))
  | .signature name index =>
      return .signature name
        (← Edit.inContext (.methodSignature method) (renamer.descriptorAt index))
  | other => return other

def methodMember (renamer : Renamer) (inside : String) (item : Member × Nat) : Edit Member := do
  let (method, ordinal) := item
  let text ← Edit.text method.name
  let type ← Edit.text method.descriptor
  let mapped := renamer.signature type
  let name ← Edit.retarget method.name text (renamer.method inside text mapped)
  let descriptor ← Edit.retarget method.descriptor type mapped
  let attributes ← method.attributes.mapM (renamer.methodAttribute (text ++ type) ordinal)
  return { method with name, descriptor, attributes }

/-- Renames everything in a class file but the pool itself, which the state holds. -/
def parts (renamer : Renamer) (inside : String) (file : ClassFile) : Edit ClassFile := do
  renamer.constants inside
  let attributes ← file.attributes.mapM (renamer.classAttribute inside)
  let fields ← file.fields.mapM (renamer.fieldMember inside)
  let methods ← file.methods.zipIdx.mapM (renamer.methodMember inside)
  return { file with attributes, fields, methods }

def renameClass (renamer : Renamer) (file : ClassFile) :
    Except Failure ClassFile × Array Notice :=
  match file.name with
  | .error failure => (.error failure, #[])
  | .ok name =>
      match Edit.inContext (.renameClass name) (renamer.parts name file) (.ofPool file.pool) with
      | (.ok renamed, editing) => (.ok { renamed with pool := editing.pool }, editing.notices)
      | (.error failure, editing) => (.error failure, editing.notices)

end Renamer

end Deobfuscation
