import Deobfuscation.Text.Hidden

/-!
Quoted text for messages: in double quotes, with escapes for the quote, the
backslash and everything that would not show as a character of its own.
-/

namespace Deobfuscation.Text.Quoted

def escape (char : Char) : List Char :=
  if char = '"' then ['\\', '"']
  else if char = '\\' then ['\\', '\\']
  else if char = '\t' then ['\\', 't']
  else if char = '\r' then ['\\', 'r']
  else if char = '\n' then ['\\', 'n']
  else if char.toNat = 0 then ['\\', '0']
  else if isHidden char then '\\' :: 'u' :: '\x7b' :: Nat.toDigits 16 char.toNat ++ ['\x7d']
  else [char]

def quote (text : String) : String :=
  String.ofList ('"' :: text.toList.flatMap escape ++ ['"'])

end Deobfuscation.Text.Quoted
