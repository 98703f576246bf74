import Deobfuscation.Text.Utf8

/-!
The text encoding of constant pools. A text is cut into UTF-16 code units and each
unit is written in one to three bytes, with two bytes for zero. Plain UTF-8 is read
as well: only bytes that are no UTF-8 are looked at unit by unit.
-/

namespace Deobfuscation.Text.ModifiedUtf8

/-- Why bytes are no text. Offsets count bytes. -/
inductive Fault where
  | invalid (length offset : Nat)
  | incomplete (offset : Nat)
  | unpaired (offset : Nat)
  deriving DecidableEq, Repr

def Fault.messages : Fault → List String
  | .invalid length offset =>
      ["invalid java utf8 contents",
        s!"invalid utf-8 sequence of {length} bytes from index {offset}"]
  | .incomplete offset =>
      ["invalid java utf8 contents", s!"incomplete utf-8 byte sequence from index {offset}"]
  | .unpaired offset =>
      ["java string contains unpaired surrogates",
        s!"invalid utf-8 sequence of 1 bytes from index {offset}"]

def isHigh (unit : Nat) : Bool := 0xD800 ≤ unit && unit < 0xDC00

def isLow (unit : Nat) : Bool := 0xDC00 ≤ unit && unit < 0xE000

def charUnits (char : Char) : List Nat :=
  if char.toNat < 0x10000 then [char.toNat]
  else [0xD800 + (char.toNat - 0x10000) / 0x400, 0xDC00 + (char.toNat - 0x10000) % 0x400]

def unitBytes (unit : Nat) : List UInt8 :=
  if unit = 0 then [0xC0, 0x80]
  else if unit < 0x80 then [UInt8.ofNat unit]
  else if unit < 0x800 then [UInt8.ofNat (0xC0 + unit / 0x40), UInt8.ofNat (0x80 + unit % 0x40)]
  else [UInt8.ofNat (0xE0 + unit / 0x1000), UInt8.ofNat (0x80 + unit / 0x40 % 0x40),
    UInt8.ofNat (0x80 + unit % 0x40)]

def encode (text : String) : List UInt8 :=
  text.toList.flatMap fun char => (charUnits char).flatMap unitBytes

/-- Reads code units. The offset is that of the first byte of the list. -/
def units (offset : Nat) : List UInt8 → Except Fault (List Nat)
  | [] => .ok []
  | first :: rest =>
      if first.toNat = 0 then .error (.invalid 1 offset)
      else if first.toNat < 0x80 then (units (offset + 1) rest).map (first.toNat :: ·)
      else match rest with
        | [] => .error (.incomplete offset)
        | second :: rest =>
            if first.toNat = 0xC0 then
              if second.toNat = 0x80 then (units (offset + 2) rest).map (0 :: ·)
              else .error (.invalid 1 offset)
            else if !Utf8.isTail second then .error (.invalid 1 offset)
            else if Utf8.isPair first second then
              (units (offset + 2) rest).map (Utf8.pairValue first second :: ·)
            else if 0xE0 ≤ first.toNat && first.toNat < 0xF0 then
              match rest with
              | [] => .error (.incomplete offset)
              | third :: rest =>
                  if !Utf8.isTail third then .error (.invalid 2 offset)
                  else if Utf8.isTripleUnit first second third then
                    (units (offset + 3) rest).map (Utf8.tripleValue first second third :: ·)
                  else .error (.invalid 1 offset)
            else .error (.invalid 1 offset)

/-- Joins surrogate pairs. The offset counts the bytes that the characters before
take in UTF-8; a surrogate without its partner is a fault there. -/
def join (offset : Nat) : List Nat → Except Fault (List Char)
  | [] => .ok []
  | [unit] =>
      if isHigh unit || isLow unit then .error (.unpaired offset) else .ok [Char.ofNat unit]
  | unit :: next :: rest =>
      if isHigh unit && isLow next then
        (join (offset + 4) rest).map
          (Char.ofNat (0x10000 + (unit - 0xD800) * 0x400 + (next - 0xDC00)) :: ·)
      else if isHigh unit || isLow unit then .error (.unpaired offset)
      else (join (offset + Utf8.width (Char.ofNat unit)) (next :: rest)).map (Char.ofNat unit :: ·)

def decode (bytes : List UInt8) : Except Fault String :=
  match Utf8.decode? bytes with
  | some chars => .ok (String.ofList chars)
  | none => do
      let chars ← join 0 (← units 0 bytes)
      return String.ofList chars

end Deobfuscation.Text.ModifiedUtf8
