import Deobfuscation.Failure

/-!
The texts that indices of a pool denote.
-/

namespace Deobfuscation

open Text

namespace Pool

def text (pool : Pool) (index : UInt16) : Except Failure String :=
  match pool.get? index with
  | some (.utf8 bytes) =>
      match ModifiedUtf8.decode bytes with
      | .ok text => .ok text
      | .error fault => .error ⟨[.utf8Constant index], .undecodable fault⟩
  | some found => .error { cause := .notUtf8 index found }
  | none => .error { cause := .noConstant index }

def className (pool : Pool) (index : UInt16) : Except Failure String :=
  match pool.get? index with
  | some (.className name) => Failure.inContext (.classConstantName index) (pool.text name)
  | some found => .error { cause := .notClass index found }
  | none => .error { cause := .noConstant index }

end Pool

def ClassFile.name (file : ClassFile) : Except Failure String :=
  Failure.inContext .className (file.pool.className file.thisClass)

end Deobfuscation
