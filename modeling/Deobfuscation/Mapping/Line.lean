import Deobfuscation.Text.Utf8

/-!
The numbered lines of a mapping file. A line ends at a line feed, and a carriage
return right before that belongs to the end. A last line without an end counts
if it is not empty. A line that is no UTF-8 has no text.
-/

namespace Deobfuscation.Mapping

structure Line where
  /-- Counted from one. -/
  number : Nat
  text : Option String
  deriving DecidableEq, Repr

namespace Line

/-- The bytes of a finished line, from its bytes in reverse. -/
def finish : List UInt8 → List UInt8
  | 0x0D :: pending => pending.reverse
  | pending => pending.reverse

/-- Splits bytes at line feeds. The first argument holds the line so far, in reverse. -/
def split : List UInt8 → List UInt8 → List (List UInt8)
  | [], [] => []
  | first :: pending, [] => [(first :: pending).reverse]
  | pending, byte :: rest =>
      if byte = 0x0A then finish pending :: split [] rest else split (byte :: pending) rest

def ofBytes (bytes : List UInt8) : List Line :=
  ((split [] bytes).zipIdx 1).map fun line =>
    ⟨line.2, (Text.Utf8.decode? line.1).map String.ofList⟩

end Line

end Deobfuscation.Mapping
