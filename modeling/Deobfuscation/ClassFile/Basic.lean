import Deobfuscation.ClassFile.Pool

/-!
Class files, only as structured as renaming needs it. Attributes that carry names
or descriptors are taken apart; all others stay bytes.
-/

namespace Deobfuscation

structure Handler where
  start : UInt16
  stop : UInt16
  handler : UInt16
  catchType : UInt16
  deriving DecidableEq, Repr

structure InnerClass where
  inner : UInt16
  outer : UInt16
  name : UInt16
  flags : UInt16
  deriving DecidableEq, Repr

def InnerClass.shown (entry : InnerClass) : String :=
  showRecord "InnerClassesEntry"
    [("inner_class_info_index", showIndex entry.inner),
      ("outer_class_info_index", showIndex entry.outer),
      ("inner_name_index", showIndex entry.name),
      ("inner_class_access_flags", showIndex entry.flags)]

/-- One local variable. The type is a descriptor, or a signature in a table of generic types. -/
structure Local where
  start : UInt16
  length : UInt16
  name : UInt16
  type : UInt16
  slot : UInt16
  deriving DecidableEq, Repr

/-- An attribute. The first item is the index of its name. -/
inductive Attribute where
  | code (name maxStack maxLocals : UInt16) (body : List UInt8) (handlers : List Handler)
      (attributes : List Attribute)
  | innerClasses (name : UInt16) (classes : List InnerClass)
  | signature (name signature : UInt16)
  | localVariables (name : UInt16) (table : List Local)
  | localVariableTypes (name : UInt16) (table : List Local)
  | other (name : UInt16) (info : List UInt8)
  deriving Repr

structure Member where
  access : UInt16
  name : UInt16
  descriptor : UInt16
  attributes : List Attribute
  deriving Repr

structure ClassFile where
  minor : UInt16
  major : UInt16
  pool : Pool
  access : UInt16
  thisClass : UInt16
  superClass : UInt16
  interfaces : List UInt16
  fields : List Member
  methods : List Member
  attributes : List Attribute
  deriving Repr

namespace Attribute

/-- What an attribute is, which the text of its name decides. -/
inductive Kind where
  | code
  | innerClasses
  | signature
  | localVariables
  | localVariableTypes
  | other
  deriving DecidableEq, Repr

/-- The bytes of a name, all of whose characters are ASCII. -/
def nameBytes (name : String) : List UInt8 := name.toList.map fun char => UInt8.ofNat char.toNat

def Kind.ofName (name : List UInt8) : Kind :=
  if name = nameBytes "Code" then .code
  else if name = nameBytes "InnerClasses" then .innerClasses
  else if name = nameBytes "Signature" then .signature
  else if name = nameBytes "LocalVariableTable" then .localVariables
  else if name = nameBytes "LocalVariableTypeTable" then .localVariableTypes
  else .other

def kind : Attribute → Kind
  | .code .. => .code
  | .innerClasses .. => .innerClasses
  | .signature .. => .signature
  | .localVariables .. => .localVariables
  | .localVariableTypes .. => .localVariableTypes
  | .other .. => .other

def name : Attribute → UInt16
  | .code name .. | .innerClasses name .. | .signature name .. | .localVariables name ..
  | .localVariableTypes name .. | .other name .. => name

end Attribute

end Deobfuscation
