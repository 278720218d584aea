/-! # Values of a document -/
namespace Majordomo.Toml

/-- How a table came to be, which says what may still be added to it. -/
inductive Origin
  /-- It has a header of its own. -/
  | header
  /-- A longer header mentions it. -/
  | implied
  /-- The key of a member mentions it. -/
  | dotted
  /-- It is written as a value, and is complete. -/
  | inline
deriving DecidableEq, Inhabited

inductive Value
  | text (s : String)
  | integer (n : Int)
  /-- A number with a fraction or an exponent, infinite, or no number. -/
  | float
  | boolean (b : Bool)
  | moment
  | array (items : List Value)
  | table (origin : Origin) (members : List (String × Value))
  /-- The tables of a header in double brackets. -/
  | tables (items : List Value)
deriving Inhabited

/-- The members of a table, in the order in which they were first mentioned. -/
abbrev Members := List (String × Value)

end Majordomo.Toml
