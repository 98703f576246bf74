import Deobfuscation.Table

/-!
Class names inside descriptors and generic signatures. A name starts after an `L`
and ends before the next `;`, `<` or `.`; a name that never ends is no name. A
signature is the list of its segments, and mapping it renames the name segments.
-/

namespace Deobfuscation.Signature

/-- A piece of a signature: a character that is copied, or a class name. -/
inductive Segment where
  | plain (char : Char)
  | name (text : String)
  deriving DecidableEq, Repr

def endsName (char : Char) : Bool := char = ';' || char = '<' || char = '.'

/-- Reads the rest of a signature. The first argument holds the characters of the name that
is open, the last one first, and is `none` outside of names. -/
def scan : Option (List Char) → List Char → List Segment
  | none, [] => []
  | some pending, [] => pending.reverse.map .plain
  | none, char :: rest => .plain char :: scan (if char = 'L' then some [] else none) rest
  | some pending, char :: rest =>
      if endsName char then
        .name (String.ofList pending.reverse) :: .plain char :: scan none rest
      else scan (some (char :: pending)) rest

def segments (signature : String) : List Segment := scan none signature.toList

def Segment.chars : Segment → List Char
  | .plain char => [char]
  | .name text => text.toList

def render (pieces : List Segment) : String := String.ofList (pieces.flatMap Segment.chars)

def Segment.rename (names : String → String) : Segment → Segment
  | .plain char => .plain char
  | .name text => .name (names text)

def renamed (names : Table String String) (name : String) : String := (names.get? name).getD name

def map (names : Table String String) (signature : String) : String :=
  render ((segments signature).map (Segment.rename (renamed names)))

/-- Some class name of the signature is replaced by a different one. -/
def changes (names : Table String String) (signature : String) : Bool :=
  (segments signature).any fun
    | .plain _ => false
    | .name text => renamed names text ≠ text

end Deobfuscation.Signature
