import Majordomo.Toml.Number

/-! # Dates and times of a document -/
namespace Majordomo.Toml.Moment

/-- Reads a number of `width` digits within bounds. -/
def field? (width low high : Nat) (s : List Char) : Option (Nat × List Char) := do
  let digits := s.take width
  guard (digits.length = width ∧ digits.all isDigit)
  let n := natOf digits
  guard (low ≤ n ∧ n ≤ high)
  return (n, s.drop width)

def mark? (c : Char) : List Char → Option (List Char)
  | d :: rest => if d = c then some rest else none
  | [] => none

def isLeap (year : Nat) : Bool := year % 4 = 0 && (year % 100 ≠ 0 || year % 400 = 0)

def daysIn (year month : Nat) : Nat :=
  match month with
  | 2 => if isLeap year then 29 else 28
  | 4 | 6 | 9 | 11 => 30
  | _ => 31

def date? (s : List Char) : Option (List Char) := do
  let (year, s) ← field? 4 0 9999 s
  let s ← mark? '-' s
  let (month, s) ← field? 2 1 12 s
  let s ← mark? '-' s
  let (_, s) ← field? 2 1 (daysIn year month) s
  return s

/-- The characters after a fraction of a second, if they start with one. -/
def skipFraction : List Char → List Char
  | '.' :: c :: rest => if isDigit c then rest.dropWhile isDigit else '.' :: c :: rest
  | s => s

/-- Reads a time of day; a minute may have a leap second. -/
def time? (s : List Char) : Option (List Char) := do
  let (_, s) ← field? 2 0 23 s
  let s ← mark? ':' s
  let (_, s) ← field? 2 0 59 s
  let s ← mark? ':' s
  let (_, s) ← field? 2 0 60 s
  return skipFraction s

/-- Reads the distance from universal time, if one is given. -/
def offset? : List Char → Option (List Char)
  | c :: rest =>
    if c = 'Z' || c = 'z' then some rest
    else if c = '+' || c = '-' then do
      let (_, s) ← field? 2 0 23 rest
      let s ← mark? ':' s
      let (_, s) ← field? 2 0 59 s
      return s
    else some (c :: rest)
  | [] => some []

def isTime : List Char → Bool
  | a :: b :: ':' :: _ => isDigit a && isDigit b
  | _ => false

def isDate : List Char → Bool
  | a :: b :: c :: d :: '-' :: _ => isDigit a && isDigit b && isDigit c && isDigit d
  | _ => false

def dateTime? (s : List Char) : Option (List Char) := do
  match ← date? s with
  | c :: rest =>
    if (c = 'T' || c = 't' || c = ' ') && isTime rest then offset? (← time? rest)
    else return c :: rest
  | [] => return []

end Majordomo.Toml.Moment
