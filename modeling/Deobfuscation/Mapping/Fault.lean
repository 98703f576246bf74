import Deobfuscation.Text.Quoted

/-!
What can be wrong with a mapping file, and what is only worth a warning.
-/

namespace Deobfuscation.Mapping

open Text

inductive LineFault where
  /-- Neither a class line nor a member line of the class before it. -/
  | unexpected (text : String)
  | fieldCount
  | noOwner
  | undeclared (owner : String)
  /-- The owner of a member has another original name than its declaration. -/
  | ownerMismatch (declared given : String)
  deriving DecidableEq, Repr

def LineFault.message : LineFault → String
  | .unexpected text => "invalid syntax: " ++ Quoted.quote text
  | .fieldCount => "wrong number of fields"
  | .noOwner => "invalid syntax"
  | .undeclared owner => s!"class {owner} is not declared"
  | .ownerMismatch declared given =>
      s!"deobfuscated class names do not match ({declared},{given})"

/-- Why a mapping file can not be read. The first such line decides. -/
inductive Fault where
  | unreadable (line : Nat)
  | malformed (line : Nat) (fault : LineFault)
  deriving DecidableEq, Repr

def Fault.messages : Fault → List String
  | .unreadable line => [s!"failed to read line {line}", "stream did not contain valid UTF-8"]
  | .malformed line fault => [s!"error at line {line}: " ++ fault.message]

inductive Warning where
  | skipped (line : Nat) (text : String)
  | redeclared (line : Nat) (obfuscated previous : String)
  deriving DecidableEq, Repr

def Warning.message : Warning → String
  | .skipped line text => s!"skipping invalid line {line}: " ++ Quoted.quote text
  | .redeclared line obfuscated previous =>
      s!"line {line}: class {obfuscated} is declared again, replacing the mapping to {previous}"

end Deobfuscation.Mapping
