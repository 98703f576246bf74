import Deobfuscation.ClassFile.Length

/-!
Class files as bytes. Words have their high bytes first. The count before a list is
cut down to its width, whatever the list holds.
-/

namespace Deobfuscation

def bytes16 (word : UInt16) : List UInt8 :=
  [UInt8.ofNat (word.toNat / 0x100), UInt8.ofNat word.toNat]

def bytes32 (word : UInt32) : List UInt8 :=
  [UInt8.ofNat (word.toNat / 0x1000000), UInt8.ofNat (word.toNat / 0x10000),
    UInt8.ofNat (word.toNat / 0x100), UInt8.ofNat word.toNat]

def counted16 {Item : Type} (bytes : Item → List UInt8) (items : List Item) : List UInt8 :=
  bytes16 (UInt16.ofNat items.length) ++ items.flatMap bytes

def sized32 (bytes : List UInt8) : List UInt8 := bytes32 (UInt32.ofNat bytes.length) ++ bytes

/-- Without the tag. -/
def Constant.content : Constant → List UInt8
  | .utf8 bytes => bytes16 (UInt16.ofNat bytes.length) ++ bytes
  | .integer bits | .float bits => bytes32 bits
  | .long high low | .double high low => bytes32 high ++ bytes32 low
  | .className index | .string index | .methodType index | .moduleName index
  | .packageName index => bytes16 index
  | .memberRef _ first second | .nameAndType first second | .dynamic first second
  | .invokeDynamic first second => bytes16 first ++ bytes16 second
  | .methodHandle kind reference => kind :: bytes16 reference

def Constant.bytes (constant : Constant) : List UInt8 := constant.tag :: constant.content

def Pool.bytes (pool : Pool) : List UInt8 :=
  bytes16 pool.nextIndex ++ pool.constants.flatMap Constant.bytes

def Handler.bytes (entry : Handler) : List UInt8 :=
  bytes16 entry.start ++ bytes16 entry.stop ++ bytes16 entry.handler ++ bytes16 entry.catchType

def InnerClass.bytes (entry : InnerClass) : List UInt8 :=
  bytes16 entry.inner ++ bytes16 entry.outer ++ bytes16 entry.name ++ bytes16 entry.flags

def Local.bytes (entry : Local) : List UInt8 :=
  bytes16 entry.start ++ bytes16 entry.length ++ bytes16 entry.name ++ bytes16 entry.type ++
    bytes16 entry.slot

namespace Attribute

def lengthItem (item : Attribute) : List UInt8 := bytes32 (UInt32.ofNat (item.length - 6))

mutual

def bytes : Attribute → List UInt8
  | .code name maxStack maxLocals body handlers attributes =>
      bytes16 name ++ lengthItem (.code name maxStack maxLocals body handlers attributes) ++
        (bytes16 maxStack ++ bytes16 maxLocals ++ sized32 body ++
          counted16 Handler.bytes handlers ++
          (bytes16 (UInt16.ofNat attributes.length) ++ bytesOfAll attributes))
  | .innerClasses name classes =>
      bytes16 name ++ lengthItem (.innerClasses name classes) ++
        counted16 InnerClass.bytes classes
  | .signature name index => bytes16 name ++ lengthItem (.signature name index) ++ bytes16 index
  | .localVariables name table =>
      bytes16 name ++ lengthItem (.localVariables name table) ++ counted16 Local.bytes table
  | .localVariableTypes name table =>
      bytes16 name ++ lengthItem (.localVariableTypes name table) ++ counted16 Local.bytes table
  | .other name info => bytes16 name ++ sized32 info

def bytesOfAll : List Attribute → List UInt8
  | [] => []
  | first :: rest => bytes first ++ bytesOfAll rest

end

def counted (attributes : List Attribute) : List UInt8 :=
  bytes16 (UInt16.ofNat attributes.length) ++ bytesOfAll attributes

end Attribute

def Member.bytes (member : Member) : List UInt8 :=
  bytes16 member.access ++ bytes16 member.name ++ bytes16 member.descriptor ++
    Attribute.counted member.attributes

namespace ClassFile

def magic : UInt32 := 0xCAFEBABE

def bytes (file : ClassFile) : List UInt8 :=
  bytes32 magic ++ bytes16 file.minor ++ bytes16 file.major ++ file.pool.bytes ++
    bytes16 file.access ++ bytes16 file.thisClass ++ bytes16 file.superClass ++
    counted16 bytes16 file.interfaces ++ counted16 Member.bytes file.fields ++
    counted16 Member.bytes file.methods ++ Attribute.counted file.attributes

end ClassFile

end Deobfuscation
