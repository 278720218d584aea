import Majordomo.Text.Hex
import Majordomo.Toml.Line

/-! # Texts of a document

A text is written on one line between quotes, or on several between three quotes.
Between double quotes a backslash starts an escape; between single quotes every
character stands for itself.
-/
namespace Majordomo.Toml

def push (c : Char) : Option (List Char × List Char) → Option (List Char × List Char) :=
  Option.map fun (text, rest) => (c :: text, rest)

def escape? : Char → Option Char
  | 'b' => some '\x08'
  | 't' => some '\t'
  | 'n' => some '\n'
  | 'f' => some '\x0c'
  | 'r' => some '\r'
  | '"' => some '"'
  | '\\' => some '\\'
  | _ => none

/-- The character with a number in hexadecimal digits, if there is one. -/
def scalar? (digits : List Char) : Option Char := do
  let n ← digits.foldlM (fun n c => (Text.Hex.value? c).map (n * 16 + ·)) 0
  if n < 0xD800 ∨ (0xE000 ≤ n ∧ n < 0x110000) then some (Char.ofNat n) else none

/-- Reads a text on one line after its opening double quote. -/
def basic? : List Char → Option (List Char × List Char)
  | '"' :: rest => some ([], rest)
  | '\\' :: 'u' :: a :: b :: c :: d :: rest =>
    match scalar? [a, b, c, d] with
    | some x => push x (basic? rest)
    | none => none
  | '\\' :: 'U' :: a :: b :: c :: d :: e :: f :: g :: h :: rest =>
    match scalar? [a, b, c, d, e, f, g, h] with
    | some x => push x (basic? rest)
    | none => none
  | '\\' :: c :: rest =>
    match escape? c with
    | some x => push x (basic? rest)
    | none => none
  | c :: rest => if isPlain c && c ≠ '\\' then push c (basic? rest) else none
  | [] => none

/-- Reads a text on one line after its opening single quote. -/
def literal? : List Char → Option (List Char × List Char)
  | '\'' :: rest => some ([], rest)
  | c :: rest => if isPlain c then push c (literal? rest) else none
  | [] => none

/-- Up to two quotes before the closing three belong to the text. -/
def closing (quote : Char) (s : List Char) : List Char × List Char :=
  let extra := (s.take 2).takeWhile (· = quote)
  (extra, s.drop extra.length)

/-- Whether nothing but blanks is left of the line. -/
def isAtLineEnd (s : List Char) : Bool := (newline? (skipBlanks s)).isSome

/-- Reads a text on several lines after its opening double quotes. After a backslash at the end of
a line, blanks and ends of lines are skipped: `skipping` says whether one has gone before. -/
def longBasic? (skipping : Bool) : List Char → Option (List Char × List Char)
  | '"' :: '"' :: '"' :: rest => some (closing '"' rest)
  | '\n' :: rest => if skipping then longBasic? true rest else push '\n' (longBasic? false rest)
  | '\r' :: '\n' :: rest =>
    if skipping then longBasic? true rest else push '\n' (longBasic? false rest)
  | '\\' :: 'u' :: a :: b :: c :: d :: rest =>
    match scalar? [a, b, c, d] with
    | some x => push x (longBasic? false rest)
    | none => none
  | '\\' :: 'U' :: a :: b :: c :: d :: e :: f :: g :: h :: rest =>
    match scalar? [a, b, c, d, e, f, g, h] with
    | some x => push x (longBasic? false rest)
    | none => none
  | '\\' :: c :: rest =>
    match escape? c with
    | some x => push x (longBasic? false rest)
    | none => if isAtLineEnd (c :: rest) then longBasic? true (c :: rest) else none
  | c :: rest =>
    if skipping && isBlank c then longBasic? true rest
    else if isPlain c && c ≠ '\\' then push c (longBasic? false rest)
    else none
  | [] => none

/-- Reads a text on several lines after its opening single quotes. -/
def longLiteral? : List Char → Option (List Char × List Char)
  | '\'' :: '\'' :: '\'' :: rest => some (closing '\'' rest)
  | '\r' :: '\n' :: rest => push '\n' (longLiteral? rest)
  | c :: rest => if isPlain c || c = '\n' then push c (longLiteral? rest) else none
  | [] => none

/-- Reads a text. An end of line right after three opening quotes is no part of it. -/
def text? : List Char → Option (List Char × List Char)
  | '"' :: '"' :: '"' :: rest => longBasic? false (skipNewline rest)
  | '"' :: rest => basic? rest
  | '\'' :: '\'' :: '\'' :: rest => longLiteral? (skipNewline rest)
  | '\'' :: rest => literal? rest
  | _ => none

end Majordomo.Toml
