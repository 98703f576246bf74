import Deobfuscation.ClassFile.Reader
import Deobfuscation.Mapping.Dialect
import Deobfuscation.Text.ModifiedUtf8

/-!
Failures of the program: one cause, and what was being done when it arose. All
wording of failures is here or beside the fault that is the cause.
-/

namespace Deobfuscation

open Text

inductive Cause where
  | mapping (fault : Mapping.Fault)
  | reading (failure : ReadFailure)
  | undecodable (fault : ModifiedUtf8.Fault)
  | noConstant (index : UInt16)
  | notUtf8 (index : UInt16) (found : Constant)
  | notClass (index : UInt16) (found : Constant)
  | noNameAndType (index : UInt16)
  | overflow (refused : Pool.Overflow)
  /-- A class name with a part that can not name a file. -/
  | unusablePath (name : String)
  | noInputDirectory (path : String)
  | zeroInPath
  | system (words : String)
  deriving DecidableEq, Repr

def Cause.messages : Cause → List String
  | .mapping fault => fault.messages
  | .reading failure => [failure.message]
  | .undecodable fault => fault.messages
  | .noConstant index => [s!"no constant at index {index.toNat}"]
  | .notUtf8 index found =>
      [s!"expected utf8 constant at index {index.toNat}, got {found.shown}"]
  | .notClass index found =>
      [s!"expected class constant at index {index.toNat}, got {found.shown}"]
  | .noNameAndType index => [s!"no valid name and type constant at index {index.toNat}"]
  | .overflow refused => [refused.message]
  | .unusablePath name => ["class name " ++ Quoted.quote name ++ " can't be used as a path"]
  | .noInputDirectory path => ["input directory " ++ Quoted.quote path ++ " doesn't exist"]
  | .zeroInPath => ["file name contained an unexpected NUL byte"]
  | .system words => [words]

/-- What was being done. Methods are given with their descriptor. -/
inductive Context where
  | utf8Constant (index : UInt16)
  | classConstantName (index : UInt16)
  | className
  | superClass (name : String)
  | interface (name : String)
  | collisions (name : String)
  | addString (text : String)
  | addNameAndType (name descriptor : String)
  | renameClass (name : String)
  | classConstant (index : UInt16)
  | nameAndTypeConstant (index : UInt16)
  | methodTypeConstant (index : UInt16)
  | memberReference (index : UInt16)
  | classSignature
  | innerClass (entry : InnerClass)
  | fieldDescriptor (name : String)
  | fieldSignature (name : String)
  | methodSignature (method : String)
  | localName (method : String)
  | localType (name method : String)
  | openMapping (path : String)
  | readMapping (path : String) (dialect : Mapping.Dialect)
  | readLine (number : Nat)
  | readClassFile (path : String)
  | renameClassFile (path : String)
  | writeRenamed (path : String)
  | writeClassFile (path : String)
  | classFileParents (path : String)
  | fileParents (path : String)
  | copyFile (source target : String)
  deriving DecidableEq, Repr

def Context.message : Context → String
  | .utf8Constant index => s!"failed to read utf8 constant at index {index.toNat}"
  | .classConstantName index => s!"failed to read name of class constant at index {index.toNat}"
  | .className => "failed to get the name of the class"
  | .superClass name => s!"failed to get the super class of {name}"
  | .interface name => s!"failed to get an interface of {name}"
  | .collisions name => s!"failed to check for name collisions in class {name}"
  | .addString text => "failed to add string " ++ Quoted.quote text ++ " to the constant pool"
  | .addNameAndType name descriptor =>
      "failed to add name and type " ++ Quoted.quote name ++ " " ++ Quoted.quote descriptor ++
        " to the constant pool"
  | .renameClass name => s!"failed to remap class {name}"
  | .classConstant index => s!"failed to read class constant at index {index.toNat}"
  | .nameAndTypeConstant index =>
      s!"failed to read name and type constant at index {index.toNat}"
  | .methodTypeConstant index =>
      s!"failed to remap method type constant at index {index.toNat}"
  | .memberReference index => s!"failed to remap member reference at index {index.toNat}"
  | .classSignature => "failed to remap class signature"
  | .innerClass entry => s!"failed to remap inner class entry {entry.shown}"
  | .fieldDescriptor name => s!"failed to remap descriptor of field {name}"
  | .fieldSignature name => s!"failed to remap signature of field {name}"
  | .methodSignature method => s!"failed to remap signature of method {method}"
  | .localName method => s!"failed to read local variable name in method {method}"
  | .localType name method => s!"failed to remap local variable {name} in method {method}"
  | .openMapping path => "failed to open mapping file " ++ Quoted.quote path
  | .readMapping path dialect =>
      "failed to read mapping file " ++ Quoted.quote path ++ s!" as {dialect.name} file"
  | .readLine number => s!"failed to read line {number}"
  | .readClassFile path => "failed to read class file " ++ Quoted.quote path
  | .renameClassFile path => "failed to remap class file " ++ Quoted.quote path
  | .writeRenamed path => "failed to write remapped class file " ++ Quoted.quote path
  | .writeClassFile path => "failed to write class file " ++ Quoted.quote path
  | .classFileParents path =>
      "failed to create parent directories for class file " ++ Quoted.quote path
  | .fileParents path => "failed to create parent directories for file " ++ Quoted.quote path
  | .copyFile source target =>
      "failed to copy file " ++ Quoted.quote source ++ " to " ++ Quoted.quote target

structure Failure where
  /-- The outermost first. -/
  contexts : List Context := []
  cause : Cause
  deriving DecidableEq, Repr

namespace Failure

def within (failure : Failure) (context : Context) : Failure :=
  { failure with contexts := context :: failure.contexts }

def messages (failure : Failure) : List String :=
  failure.contexts.map Context.message ++ failure.cause.messages

def message (failure : Failure) : String := String.intercalate ": " failure.messages

def indented (margin : String) (text : String) : String :=
  String.ofList <| text.toList.flatMap fun char =>
    if char = '\n' then '\n' :: margin.toList else [char]

/-- A number, and spaces before it up to a width of five. -/
def ordinal (number : Nat) : String :=
  let digits := toString number
  String.ofList (List.replicate (5 - digits.length) ' ') ++ digits

/-- What a run that failed says at its end: the outermost message, and the causes below it. They
are numbered if there is more than one. -/
def report (failure : Failure) : String :=
  match failure.messages with
  | [] => "Error: "
  | [message] => s!"Error: {message}"
  | [message, cause] => s!"Error: {message}\n\nCaused by:\n    " ++ indented "    " cause
  | message :: causes =>
      let shown := causes.zipIdx.map fun cause =>
        "\n" ++ ordinal cause.2 ++ ": " ++ indented "       " cause.1
      s!"Error: {message}\n\nCaused by:" ++ String.join shown

def inContext {Item : Type} (context : Context) : Except Failure Item → Except Failure Item
  | .ok item => .ok item
  | .error failure => .error (failure.within context)

end Failure

end Deobfuscation
