/-! # Lines of a document

What stands between the words of a document: blanks, comments and ends of lines.
Readers here and in the other modules return what they leave of the characters.
-/
namespace Majordomo.Toml

def isBlank (c : Char) : Bool := c = ' ' || c = '\t'

/-- A character that may stand in a comment or a text: no control character but the tab. -/
def isPlain (c : Char) : Bool := c = '\t' || (0x20 ≤ c.toNat && c.toNat ≠ 0x7F)

def skipBlanks (s : List Char) : List Char := s.dropWhile isBlank

/-- Reads the end of a line; a carriage return ends one only before a line feed. -/
def newline? : List Char → Option (List Char)
  | '\n' :: rest => some rest
  | '\r' :: '\n' :: rest => some rest
  | _ => none

/-- The characters after a first end of line, if they start with one. -/
def skipNewline (s : List Char) : List Char := (newline? s).getD s

/-- The characters after a comment, if they start with one. -/
def skipComment : List Char → List Char
  | '#' :: rest => rest.dropWhile isPlain
  | s => s

/-- Reads what may follow a statement on its line: blanks, a comment, and the end of the line or
of the document. -/
def lineEnd? (s : List Char) : Option (List Char) :=
  match skipComment (skipBlanks s) with
  | [] => some []
  | s => newline? s

/-- Skips blanks, comments and ends of lines. `comment` says whether a comment has begun. -/
def skipLines (comment : Bool) : List Char → List Char
  | '\n' :: rest => skipLines false rest
  | '\r' :: '\n' :: rest => skipLines false rest
  | c :: rest =>
    if comment then if isPlain c then skipLines true rest else c :: rest
    else if isBlank c then skipLines false rest
    else if c = '#' then skipLines true rest
    else c :: rest
  | [] => []

end Majordomo.Toml
