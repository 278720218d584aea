import Majordomo.Text.Glyphless

/-! # Quoted text

A text between double quotes that shows every character: quotes and backslashes
are escaped, and a character without a glyph of its own is written by its number.
-/
namespace Majordomo.Text.Quoted

def char (c : Char) : List Char :=
  if c = '\x00' then ['\\', '0']
  else if c = '\t' then ['\\', 't']
  else if c = '\r' then ['\\', 'r']
  else if c = '\n' then ['\\', 'n']
  else if c = '"' ∨ c = '\\' then ['\\', c]
  else if isGlyphless c then ['\\', 'u', '\x7b'] ++ Nat.toDigits 16 c.toNat ++ ['\x7d']
  else [c]

def text (s : String) : String := String.ofList ('"' :: s.toList.flatMap char ++ ['"'])

end Majordomo.Text.Quoted
