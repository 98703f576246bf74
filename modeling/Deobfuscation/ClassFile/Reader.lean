import Deobfuscation.ClassFile.Writer

/-!
Reading class files from bytes. A reader takes its part from the front and leaves
the rest. The length items of attributes that are taken apart are read and not
looked at.
-/

namespace Deobfuscation

inductive ClassFault where
  | magic (found : UInt32)
  | tag (found : UInt8)
  /-- The pool ends in the middle of a wide constant. -/
  | lastWide (index : Nat)
  | noName (index : UInt16)
  | nameNoText (index : UInt16) (found : Constant)
  deriving DecidableEq, Repr

def showHex (value : Nat) : String := "0x" ++ String.ofList (Nat.toDigits 16 value)

def ClassFault.message : ClassFault → String
  | .magic found =>
      "Unexpected constant value: expected " ++ showHex ClassFile.magic.toNat ++ ", got " ++
        showHex found.toNat ++ " for constant `magic`"
  | .tag found => s!"Unexpected constant pool tag {found.toNat}"
  | .lastWide index =>
      s!"the last constant pool entry at index {index} is a long or double, " ++
        "but that needs two indices"
  | .noName index => s!"No constant pool entry at position {index.toNat}"
  | .nameNoText index found =>
      s!"Expected constant pool entry Utf8 at position {index.toNat}, got " ++ found.shown

/-- How reading fails. A malformed part is found with bytes left that were not read yet. -/
inductive ReadFailure where
  | endOfInput
  | malformed (fault : ClassFault) (unread : List UInt8)
  deriving DecidableEq, Repr

def ReadFailure.message : ReadFailure → String
  | .endOfInput => "failed to fill whole buffer"
  | .malformed fault _ => fault.message

abbrev Reader := StateT (List UInt8) (Except ReadFailure)

namespace Reader

def fail {Item : Type} (fault : ClassFault) : Reader Item :=
  fun unread => .error (.malformed fault unread)

def word8 : Reader UInt8
  | first :: rest => .ok (first, rest)
  | [] => .error .endOfInput

def word16 : Reader UInt16
  | first :: second :: rest =>
      .ok (UInt16.ofNat (first.toNat * 0x100 + second.toNat), rest)
  | _ => .error .endOfInput

def word32 : Reader UInt32
  | first :: second :: third :: fourth :: rest =>
      .ok (UInt32.ofNat (first.toNat * 0x1000000 + second.toNat * 0x10000 +
        third.toNat * 0x100 + fourth.toNat), rest)
  | _ => .error .endOfInput

def take (count : Nat) : Reader (List UInt8) := fun bytes =>
  let taken := bytes.take count
  if taken.length = count then .ok (taken, bytes.drop count) else .error .endOfInput

/-- Reads so many items, behind those that are done, which are in reverse. -/
def collect {Item : Type} (item : Reader Item) : Nat → List Item → Reader (List Item)
  | 0, done => pure done.reverse
  | count + 1, done => do
      let next ← item
      collect item count (next :: done)

def counted16 {Item : Type} (item : Reader Item) : Reader (List Item) := do
  let count ← word16
  collect item count.toNat []

def sized16 : Reader (List UInt8) := do
  let count ← word16
  take count.toNat

def sized32 : Reader (List UInt8) := do
  let count ← word32
  take count.toNat

def pair16 {Item : Type} (make : UInt16 → UInt16 → Item) : Reader Item := do
  let first ← word16
  let second ← word16
  return make first second

def constant : Reader Constant := do
  let tag ← word8
  if tag = 1 then return .utf8 (← sized16)
  else if tag = 3 then return .integer (← word32)
  else if tag = 4 then return .float (← word32)
  else if tag = 5 then
    let high ← word32
    return .long high (← word32)
  else if tag = 6 then
    let high ← word32
    return .double high (← word32)
  else if tag = 7 then return .className (← word16)
  else if tag = 8 then return .string (← word16)
  else if tag = 9 then pair16 (.memberRef .field)
  else if tag = 10 then pair16 (.memberRef .method)
  else if tag = 11 then pair16 (.memberRef .interfaceMethod)
  else if tag = 12 then pair16 .nameAndType
  else if tag = 15 then
    let kind ← word8
    return .methodHandle kind (← word16)
  else if tag = 16 then return .methodType (← word16)
  else if tag = 17 then pair16 .dynamic
  else if tag = 18 then pair16 .invokeDynamic
  else if tag = 19 then return .moduleName (← word16)
  else if tag = 20 then return .packageName (← word16)
  else fail (.tag tag)

/-- Fills so many more slots, behind those that are filled. -/
def slots : Nat → Array (Option Constant) → Reader (Array (Option Constant))
  | 0, filled => pure filled
  | 1, filled => do
      let last ← constant
      if last.isWide then fail (.lastWide (filled.size + 1)) else return filled.push (some last)
  | count + 2, filled => do
      let next ← constant
      if next.isWide then slots count ((filled.push (some next)).push none)
      else slots (count + 1) (filled.push (some next))

/-- A count of zero or one is an empty pool. -/
def pool : Reader Pool := do
  let count ← word16
  return ⟨← slots (count.toNat - 1) #[]⟩

def handler : Reader Handler := do
  let start ← word16
  let stop ← word16
  let handler ← word16
  let catchType ← word16
  return ⟨start, stop, handler, catchType⟩

def innerClass : Reader InnerClass := do
  let inner ← word16
  let outer ← word16
  let name ← word16
  let flags ← word16
  return ⟨inner, outer, name, flags⟩

def localVariable : Reader Local := do
  let start ← word16
  let length ← word16
  let name ← word16
  let type ← word16
  let slot ← word16
  return ⟨start, length, name, type, slot⟩

def attributeKind (pool : Pool) (name : UInt16) : Reader Attribute.Kind :=
  match pool.get? name with
  | some (.utf8 bytes) => pure (.ofName bytes)
  | some found => fail (.nameNoText name found)
  | none => fail (.noName name)

/-- Reads an attribute whose nesting is less deep than the first number. Each level takes
bytes, so the number of bytes left is always enough, and none are left at level zero. -/
def attributeWithin (pool : Pool) : Nat → Reader Attribute
  | 0 => throw .endOfInput
  | depth + 1 => do
      let name ← word16
      match ← attributeKind pool name with
      | .code =>
          let _ ← word32
          let maxStack ← word16
          let maxLocals ← word16
          let code ← sized32
          let handlers ← counted16 handler
          let attributes ← counted16 (attributeWithin pool depth)
          return .code name maxStack maxLocals code handlers attributes
      | .innerClasses =>
          let _ ← word32
          return .innerClasses name (← counted16 innerClass)
      | .signature =>
          let _ ← word32
          return .signature name (← word16)
      | .localVariables =>
          let _ ← word32
          return .localVariables name (← counted16 localVariable)
      | .localVariableTypes =>
          let _ ← word32
          return .localVariableTypes name (← counted16 localVariable)
      | .other => return .other name (← sized32)

def member (pool : Pool) (depth : Nat) : Reader Member := do
  let access ← word16
  let name ← word16
  let descriptor ← word16
  let attributes ← counted16 (attributeWithin pool depth)
  return ⟨access, name, descriptor, attributes⟩

def classFile : Reader ClassFile := do
  let depth := (← get).length
  let found ← word32
  if found ≠ ClassFile.magic then fail (.magic found)
  else
    let minor ← word16
    let major ← word16
    let pool ← pool
    let access ← word16
    let thisClass ← word16
    let superClass ← word16
    let interfaces ← counted16 word16
    let fields ← counted16 (member pool depth)
    let methods ← counted16 (member pool depth)
    let attributes ← counted16 (attributeWithin pool depth)
    return ⟨minor, major, pool, access, thisClass, superClass, interfaces, fields, methods,
      attributes⟩

end Reader

/-- The class file at the front of the bytes, and the bytes after it. -/
def ClassFile.read (bytes : List UInt8) : Except ReadFailure (ClassFile × List UInt8) :=
  Reader.classFile.run bytes

end Deobfuscation
