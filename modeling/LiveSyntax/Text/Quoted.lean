import LiveSyntax.Text.Unprintable

/-!
# Quoted texts

A quoted text stands in double quotes. A quote and a backslash get a backslash; tab, line feed, carriage return and
the null character have names of their own; every other unprintable character is spelt by its code point in
hexadecimal. All else stands for itself.
-/

namespace LiveSyntax.Quoted

def spell (c : Char) : List Char :=
  if c = '\x00' then ['\\', '0']
  else if c = '\t' then ['\\', 't']
  else if c = '\n' then ['\\', 'n']
  else if c = '\r' then ['\\', 'r']
  else if c = '\\' then ['\\', '\\']
  else if c = '"' then ['\\', '"']
  else if CharTable.unprintable.hasChar c then
    ['\\', 'u', '\x7b'] ++ Nat.toDigits 16 c.toNat ++ ['\x7d']
  else [c]

def render (text : String) : String :=
  String.ofList (['"'] ++ text.toList.flatMap spell ++ ['"'])

end LiveSyntax.Quoted
