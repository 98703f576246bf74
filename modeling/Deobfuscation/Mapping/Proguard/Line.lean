import Deobfuscation.Descriptor
import Deobfuscation.Text.Cut

/-!
The three kinds of lines of the Proguard dialect:

    com.example.Main -> a:
        java.lang.String[] names -> b
        12:20:void run(int,java.util.List) -> c

Members are indented by four spaces. A range of line numbers before a method is
passed over. Each reader cuts the line first and looks at the pieces then.
-/

namespace Deobfuscation.Mapping.Proguard

open Text

def isIdentifierChar (char : Char) : Bool :=
  char.isAlphanum || "_$.<>-".toList.contains char

def isIdentifier (text : List Char) : Bool := !text.isEmpty && text.all isIdentifierChar

def isTypeChar (char : Char) : Bool := char.isAlphanum || "_$.".toList.contains char

/-- A type of source code: a nonempty element, and any number of `[]`. -/
def isType (text : String) : Bool :=
  let element := (SourceType.ofText text).element.toList
  !element.isEmpty && element.all isTypeChar

structure ClassLine where
  original : String
  obfuscated : String
  deriving DecidableEq, Repr

structure FieldLine where
  type : String
  original : String
  obfuscated : String
  deriving DecidableEq, Repr

structure MethodLine where
  returned : String
  original : String
  arguments : List String
  obfuscated : String
  deriving DecidableEq, Repr

def MethodLine.descriptor (line : MethodLine) : String :=
  encodeMethodType line.returned line.arguments

def arrow : List Char := " -> ".toList

def indent : List Char := "    ".toList

/-- Reads `original -> obfuscated`. -/
def identifiers? (text : List Char) : Option (String × String) := do
  let (original, obfuscated) ← cut? arrow text
  if isIdentifier original && isIdentifier obfuscated then
    some (String.ofList original, String.ofList obfuscated)
  else none

/-- Reads `original -> obfuscated:`. -/
def classLine? (text : String) : Option ClassLine := do
  let body ← stripEnd? [':'] text.toList
  let (original, obfuscated) ← identifiers? body
  return ⟨original, obfuscated⟩

/-- Reads `    type original -> obfuscated`. -/
def fieldLine? (text : String) : Option FieldLine := do
  let body ← stripStart? indent text.toList
  let (type, rest) ← cut? [' '] body
  let (original, obfuscated) ← identifiers? rest
  if isType (String.ofList type) then some ⟨String.ofList type, original, obfuscated⟩ else none

def isNumber (text : List Char) : Bool := !text.isEmpty && text.all Char.isDigit

/-- What follows a range `start:end:`, or the whole text if there is none. -/
def skipRange (text : List Char) : List Char :=
  match cut? [':'] text with
  | none => text
  | some (start, rest) =>
      match cut? [':'] rest with
      | none => text
      | some (stop, rest) => if isNumber start && isNumber stop then rest else text

def arguments (text : List Char) : List String :=
  if text.isEmpty then [] else (splitAll ',' text).map String.ofList

/-- Reads `    [start:end:]returned original(argument,...) -> obfuscated`. -/
def methodLine? (text : String) : Option MethodLine := do
  let body ← stripStart? indent text.toList
  let (returned, rest) ← cut? [' '] (skipRange body)
  let (signature, obfuscated) ← cut? arrow rest
  let inner ← stripEnd? [')'] signature
  let (original, types) ← cut? ['('] inner
  let line : MethodLine :=
    ⟨String.ofList returned, String.ofList original, arguments types, String.ofList obfuscated⟩
  if isType line.returned && isIdentifier original && isIdentifier obfuscated &&
      line.arguments.all isType then some line
  else none

end Deobfuscation.Mapping.Proguard
