import Deobfuscation.Mapping.Proguard
import Deobfuscation.Mapping.Srg

/-!
The dialects of mapping files.
-/

namespace Deobfuscation.Mapping

inductive Dialect where
  | proguard
  | srg
  deriving DecidableEq, Repr

def Dialect.name : Dialect → String
  | .proguard => "Proguard"
  | .srg => "Srg"

/-- Reads a mapping file: the warnings on the way, and its classes or the first fault. -/
def Dialect.parse : Dialect → List UInt8 → List Warning × Except Fault (List ClassMapping)
  | .proguard, bytes => ([], Proguard.parse bytes)
  | .srg, bytes => Srg.parse bytes

end Deobfuscation.Mapping
