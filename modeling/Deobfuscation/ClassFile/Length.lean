import Deobfuscation.ClassFile.Basic

/-!
The number of bytes that each part of a class file takes, without writing it.
-/

namespace Deobfuscation

def totalOf {Item : Type} (size : Item → Nat) : List Item → Nat
  | [] => 0
  | first :: rest => size first + totalOf size rest

/-- Without the tag. -/
def Constant.length : Constant → Nat
  | .utf8 bytes => 2 + bytes.length
  | .integer _ | .float _ => 4
  | .long .. | .double .. => 8
  | .className _ | .string _ | .methodType _ | .moduleName _ | .packageName _ => 2
  | .memberRef .. | .nameAndType .. | .dynamic .. | .invokeDynamic .. => 4
  | .methodHandle .. => 3

def Pool.length (pool : Pool) : Nat :=
  2 + totalOf (fun constant => 1 + constant.length) pool.constants

namespace Attribute

mutual

/-- With the name index and the length item, six bytes together. -/
def length : Attribute → Nat
  | .code _ _ _ body handlers attributes =>
      6 + (2 + 2 + (4 + body.length) + (2 + 8 * handlers.length) + (2 + lengths attributes))
  | .innerClasses _ classes => 6 + (2 + 8 * classes.length)
  | .signature .. => 6 + 2
  | .localVariables _ table => 6 + (2 + 10 * table.length)
  | .localVariableTypes _ table => 6 + (2 + 10 * table.length)
  | .other _ info => 6 + info.length

def lengths : List Attribute → Nat
  | [] => 0
  | first :: rest => length first + lengths rest

end

end Attribute

def Member.length (member : Member) : Nat := 2 + 2 + 2 + (2 + Attribute.lengths member.attributes)

def ClassFile.length (file : ClassFile) : Nat :=
  4 + 2 + 2 + file.pool.length + 2 + 2 + 2 + (2 + 2 * file.interfaces.length) +
    (2 + totalOf Member.length file.fields) + (2 + totalOf Member.length file.methods) +
    (2 + Attribute.lengths file.attributes)

end Deobfuscation
