import Deobfuscation.Table

/-!
Type descriptors of the virtual machine, made from types as source code writes them:
`int[]` is `[I` and `java.lang.String` is `Ljava/lang/String;`.
-/

namespace Deobfuscation

/-- A type of source code: the name of its element and how many `[]` follow it. -/
structure SourceType where
  element : String
  dimensions : Nat
  deriving DecidableEq, Repr

namespace SourceType

/-- Takes pairs of brackets off the start of a reversed text. -/
def takeBrackets : List Char → Nat × List Char
  | ']' :: '[' :: rest =>
      let parts := takeBrackets rest
      (parts.1 + 1, parts.2)
  | text => (0, text)

def ofText (text : String) : SourceType :=
  let parts := takeBrackets text.toList.reverse
  ⟨String.ofList parts.2.reverse, parts.1⟩

/-- The one letter codes. Every other element is the name of a class. -/
def codes : List (String × Char) :=
  [("byte", 'B'), ("char", 'C'), ("double", 'D'), ("float", 'F'), ("int", 'I'), ("short", 'S'),
    ("long", 'J'), ("boolean", 'Z'), ("void", 'V')]

def internalName (name : String) : String :=
  String.ofList (name.toList.map fun char => if char = '.' then '/' else char)

def elementDescriptor (element : String) : List Char :=
  match Table.find element codes with
  | some code => [code]
  | none => 'L' :: (internalName element).toList ++ [';']

def descriptor (type : SourceType) : String :=
  String.ofList (List.replicate type.dimensions '[' ++ elementDescriptor type.element)

end SourceType

def encodeType (text : String) : String := (SourceType.ofText text).descriptor

def encodeMethodType (returned : String) (arguments : List String) : String :=
  String.ofList
    ('(' :: (arguments.flatMap fun argument => (encodeType argument).toList) ++
      ')' :: (encodeType returned).toList)

end Deobfuscation
