import Deobfuscation.Hierarchy
import Deobfuscation.Mapping.Basic
import Deobfuscation.Signature

/-!
The new names of classes and members. A member takes its name from the mapping of its
class, or else from the first of the ancestors that maps it.
-/

namespace Deobfuscation

structure Renamer where
  mappings : Mappings
  hierarchy : Hierarchy
  classNames : Table String String
  obfuscatedNames : Table String String

namespace Renamer

def create (mappings : Mappings) (hierarchy : Hierarchy) : Renamer :=
  { mappings, hierarchy
    classNames := mappings.classNames
    obfuscatedNames := mappings.inverseClassNames }

def signature (renamer : Renamer) (text : String) : String :=
  Signature.map renamer.classNames text

def className (renamer : Renamer) (name : String) : String :=
  if name.toList.head? = some '[' then renamer.signature name
  else (renamer.mappings.originalName? name).getD name

/-- The obfuscated name of a class whose name is mapped already. -/
def obfuscatedName (renamer : Renamer) (name : String) : String :=
  (renamer.obfuscatedNames.get? name).getD name

def ownField? (renamer : Renamer) (name : String) (owner : String) : Option String :=
  (renamer.mappings.get? owner).bind (·.field? name)

def ownMethod? (renamer : Renamer) (name descriptor : String) (owner : String) : Option String :=
  (renamer.mappings.get? owner).bind (·.method? name descriptor)

def findField? (renamer : Renamer) (owner name : String) : Option String :=
  renamer.hierarchy.find (renamer.ownField? name) owner

def findMethod? (renamer : Renamer) (owner name descriptor : String) : Option String :=
  renamer.hierarchy.find (renamer.ownMethod? name descriptor) owner

def field (renamer : Renamer) (owner name : String) : String :=
  (renamer.findField? owner name).getD name

/-- The new name of a field that a class declares. Only the class itself counts: a declared field
hides those of the parents. -/
def declaredField (renamer : Renamer) (owner name : String) : String :=
  (renamer.ownField? name owner).getD name

def method (renamer : Renamer) (owner name descriptor : String) : String :=
  (renamer.findMethod? owner name descriptor).getD name

/-- The new name of what a reference refers to. Only methods are told apart by the descriptor,
which is mapped already. -/
def member (renamer : Renamer) (kind : MemberKind) (owner name descriptor : String) : String :=
  match kind with
  | .field => renamer.field owner name
  | .method | .interfaceMethod => renamer.method owner name descriptor

end Renamer

end Deobfuscation
