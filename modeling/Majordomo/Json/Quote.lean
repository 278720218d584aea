import Majordomo.Text.Hex

/-! # JSON strings

A text as a JSON string: quotes, backslashes and characters below the space are
escaped, everything else stands as it is.
-/
namespace Majordomo.Json

/-- The short escape of a character, where it has one. -/
def shortEscape? (c : Char) : Option Char :=
  match c with
  | '"' | '\\' => some c
  | '\x08' => some 'b'
  | '\x0c' => some 'f'
  | '\n' => some 'n'
  | '\r' => some 'r'
  | '\t' => some 't'
  | _ => none

def escape (c : Char) : List Char :=
  match shortEscape? c with
  | some e => ['\\', e]
  | none =>
    if c.toNat < 0x20 then
      ['\\', 'u', '0', '0', Text.Hex.digit 'a' (c.toNat / 16), Text.Hex.digit 'a' (c.toNat % 16)]
    else [c]

def quote (s : List Char) : List Char := '"' :: s.flatMap escape ++ ['"']

def quoteAll (texts : List String) : String :=
  "[" ++ ",".intercalate (texts.map fun s => String.ofList (quote s.toList)) ++ "]"

end Majordomo.Json
