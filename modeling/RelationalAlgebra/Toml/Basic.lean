/-!
# TOML values

The tree a TOML document stands for.  Floating-point numbers, dates and times are told apart from
the other values but their contents are not kept: nothing here reads them.

A group of named parts is a table; it may also be written as an array with the parts in a fixed
order (`Toml.part?`).
-/

namespace RelationalAlgebra

/-- A TOML value. -/
inductive Toml where
  | string (s : String)
  | integer (n : Int)
  | float
  | boolean (b : Bool)
  | datetime
  | array (items : List Toml)
  | table (fields : List (String × Toml))
  deriving Inhabited, Repr

namespace Toml

/-- The text, if this is a string. -/
def string? : Toml → Option String
  | .string s => some s
  | _ => none

/-- The items, if this is an array. -/
def items? : Toml → Option (List Toml)
  | .array items => some items
  | _ => none

/-- The value of a field, if this is a table that has it. -/
def get? (name : String) : Toml → Option Toml
  | .table fields => fields.lookup name
  | _ => none

/-- A part of a group, by its name in a table and by its place in an array. -/
def part? (name : String) (place : Nat) : Toml → Option Toml
  | .table fields => fields.lookup name
  | .array items => items[place]?
  | _ => none

end Toml

end RelationalAlgebra
