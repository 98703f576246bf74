/-!
The constants of a class file. Numbers are kept as their bits and texts as their
bytes: a class file can hold bytes that are no text, and they have to survive.
-/

namespace Deobfuscation

inductive MemberKind where
  | field
  | method
  | interfaceMethod
  deriving DecidableEq, Repr

/-- A constant. Every `UInt16` is the index of another constant, but for `bootstrap`; a `pair`
is the index of a name and type. -/
inductive Constant where
  | utf8 (bytes : List UInt8)
  | integer (bits : UInt32)
  | float (bits : UInt32)
  | long (high low : UInt32)
  | double (high low : UInt32)
  | className (name : UInt16)
  | string (text : UInt16)
  | memberRef (kind : MemberKind) (owner pair : UInt16)
  | nameAndType (name descriptor : UInt16)
  | methodHandle (kind : UInt8) (reference : UInt16)
  | methodType (descriptor : UInt16)
  | dynamic (bootstrap pair : UInt16)
  | invokeDynamic (bootstrap pair : UInt16)
  | moduleName (name : UInt16)
  | packageName (name : UInt16)
  deriving DecidableEq, Repr

def showRecord (kind : String) (items : List (String × String)) : String :=
  let shown := items.map fun item => item.1 ++ ": " ++ item.2
  kind ++ " \x7b " ++ String.intercalate ", " shown ++ " \x7d"

def showIndex (index : UInt16) : String := toString index.toNat

def showBytes (bytes : List UInt8) : String :=
  "[" ++ String.intercalate ", " (bytes.map fun byte => toString byte.toNat) ++ "]"

namespace Constant

/-- Takes up two indices, the second of which denotes nothing. -/
def isWide : Constant → Bool
  | .long .. | .double .. => true
  | _ => false

def slots (constant : Constant) : Nat := if constant.isWide then 2 else 1

def tag : Constant → UInt8
  | .utf8 .. => 1
  | .integer .. => 3
  | .float .. => 4
  | .long .. => 5
  | .double .. => 6
  | .className .. => 7
  | .string .. => 8
  | .memberRef .field .. => 9
  | .memberRef .method .. => 10
  | .memberRef .interfaceMethod .. => 11
  | .nameAndType .. => 12
  | .methodHandle .. => 15
  | .methodType .. => 16
  | .dynamic .. => 17
  | .invokeDynamic .. => 18
  | .moduleName .. => 19
  | .packageName .. => 20

def shown : Constant → String
  | .utf8 bytes => showRecord "Utf8" [("bytes", showBytes bytes)]
  | .integer bits => showRecord "Integer" [("bytes", toString bits.toNat)]
  | .float bits => showRecord "Float" [("bytes", toString bits.toNat)]
  | .long high low =>
      showRecord "Long" [("high_bytes", toString high.toNat), ("low_bytes", toString low.toNat)]
  | .double high low =>
      showRecord "Double" [("high_bytes", toString high.toNat), ("low_bytes", toString low.toNat)]
  | .className name => showRecord "Class" [("name_index", showIndex name)]
  | .string text => showRecord "String" [("string_index", showIndex text)]
  | .memberRef kind owner pair =>
      let name := match kind with
        | .field => "Fieldref"
        | .method => "Methodref"
        | .interfaceMethod => "InterfaceMethodref"
      showRecord name
        [("class_index", showIndex owner), ("name_and_type_index", showIndex pair)]
  | .nameAndType name descriptor =>
      showRecord "NameAndType"
        [("name_index", showIndex name), ("descriptor_index", showIndex descriptor)]
  | .methodHandle kind reference =>
      showRecord "MethodHandle"
        [("reference_kind", toString kind.toNat), ("reference_index", showIndex reference)]
  | .methodType descriptor => showRecord "MethodType" [("descriptor_index", showIndex descriptor)]
  | .dynamic bootstrap pair =>
      showRecord "Dynamic"
        [("bootstrap_method_attr_index", showIndex bootstrap),
          ("name_and_type_index", showIndex pair)]
  | .invokeDynamic bootstrap pair =>
      showRecord "InvokeDynamic"
        [("bootstrap_method_attr_index", showIndex bootstrap),
          ("name_and_type_index", showIndex pair)]
  | .moduleName name => showRecord "Module" [("name_index", showIndex name)]
  | .packageName name => showRecord "Package" [("name_index", showIndex name)]

end Constant

end Deobfuscation
