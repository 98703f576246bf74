/-!
UTF-8 as lists of bytes. Reading is all or nothing: overlong forms, surrogates
and values past the last character are refused, so a text has one form only.
All arithmetic is on natural numbers.
-/

namespace Deobfuscation.Text.Utf8

def isTail (byte : UInt8) : Bool := 0x80 ≤ byte.toNat && byte.toNat < 0xC0

def isPair (first second : UInt8) : Bool :=
  0xC2 ≤ first.toNat && first.toNat < 0xE0 && isTail second

/-- The three bytes are one sequence, whose value may still be a surrogate. -/
def isTripleUnit (first second third : UInt8) : Bool :=
  0xE0 ≤ first.toNat && first.toNat < 0xF0 && isTail second && isTail third &&
    (first.toNat ≠ 0xE0 || 0xA0 ≤ second.toNat)

/-- The three bytes are one sequence that stands for a character. -/
def isTriple (first second third : UInt8) : Bool :=
  isTripleUnit first second third && (first.toNat ≠ 0xED || second.toNat < 0xA0)

def isQuad (first second third fourth : UInt8) : Bool :=
  0xF0 ≤ first.toNat && first.toNat < 0xF5 && isTail second && isTail third && isTail fourth &&
    (first.toNat ≠ 0xF0 || 0x90 ≤ second.toNat) && (first.toNat ≠ 0xF4 || second.toNat < 0x90)

def pairValue (first second : UInt8) : Nat :=
  (first.toNat - 0xC0) * 0x40 + (second.toNat - 0x80)

def tripleValue (first second third : UInt8) : Nat :=
  (first.toNat - 0xE0) * 0x1000 + (second.toNat - 0x80) * 0x40 + (third.toNat - 0x80)

def quadValue (first second third fourth : UInt8) : Nat :=
  (first.toNat - 0xF0) * 0x40000 + (second.toNat - 0x80) * 0x1000 +
    (third.toNat - 0x80) * 0x40 + (fourth.toNat - 0x80)

/-- The characters of a byte list, or `none` if any part of it is no UTF-8. -/
def decode? : List UInt8 → Option (List Char)
  | [] => some []
  | first :: rest =>
      if first.toNat < 0x80 then (decode? rest).map (Char.ofNat first.toNat :: ·)
      else match rest with
        | [] => none
        | second :: rest =>
            if isPair first second then
              (decode? rest).map (Char.ofNat (pairValue first second) :: ·)
            else match rest with
              | [] => none
              | third :: rest =>
                  if isTriple first second third then
                    (decode? rest).map (Char.ofNat (tripleValue first second third) :: ·)
                  else match rest with
                    | [] => none
                    | fourth :: rest =>
                        if isQuad first second third fourth then
                          (decode? rest).map
                            (Char.ofNat (quadValue first second third fourth) :: ·)
                        else none

def width (char : Char) : Nat :=
  if char.toNat < 0x80 then 1 else if char.toNat < 0x800 then 2
  else if char.toNat < 0x10000 then 3 else 4

end Deobfuscation.Text.Utf8
