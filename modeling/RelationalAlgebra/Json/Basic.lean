import RelationalAlgebra.Decimal.Shortest

/-!
# JSON values

A JSON value as a tree.  The fields of an object are kept in increasing order of their names
with each name once, so that two objects with the same fields are the same value; `Json.insert`
and `Json.ofFields` build objects of that form, and of a repeated name the last value stays.

A number is an integer or a binary fraction: `1` and `1.0` are different values.
-/

namespace RelationalAlgebra

/-- A JSON number. -/
inductive JsonNumber where
  /-- A number written without point and exponent, of at most 64 bits. -/
  | integer (n : Int)
  /-- Any other number. -/
  | fraction (x : Binary64)
  deriving DecidableEq, Repr

/-- A JSON value. -/
inductive Json where
  | null
  | bool (b : Bool)
  | number (n : JsonNumber)
  | string (s : String)
  | array (items : List Json)
  | object (fields : List (String × Json))
  deriving Inhabited, Repr

namespace Json

/-- An integer as a value. -/
def int (n : Int) : Json := .number (.integer n)

/-! ## Objects -/

/-- Puts a field in its place; a field of that name is replaced. -/
def insertField (name : String) (value : Json) : List (String × Json) → List (String × Json)
  | [] => [(name, value)]
  | (other, old) :: rest =>
    if name < other then (name, value) :: (other, old) :: rest
    else if name = other then (name, value) :: rest
    else (other, old) :: insertField name value rest

/-- The object with the given fields; of a repeated name the last value stays. -/
def ofFields (fields : List (String × Json)) : Json :=
  .object (fields.foldl (fun done (name, value) => insertField name value done) [])

/-! ## Looking inside -/

/-- The value of a field, if this is an object that has it. -/
def get? (name : String) : Json → Option Json
  | .object fields => fields.lookup name
  | _ => none

/-- The text, if this is a string. -/
def string? : Json → Option String
  | .string s => some s
  | _ => none

/-- The number, if this is an integer. -/
def int? : Json → Option Int
  | .number (.integer n) => some n
  | _ => none

/-- The items, if this is an array. -/
def items? : Json → Option (List Json)
  | .array items => some items
  | _ => none

/-! ## Nesting -/

mutual

/-- How deep arrays and objects are nested. -/
def depth : Json → Nat
  | .array items => itemsDepth items + 1
  | .object fields => fieldsDepth fields + 1
  | _ => 1

/-- The depth of the deepest item. -/
def itemsDepth : List Json → Nat
  | [] => 0
  | item :: rest => max (depth item) (itemsDepth rest)

/-- The depth of the deepest field. -/
def fieldsDepth : List (String × Json) → Nat
  | [] => 0
  | (_, value) :: rest => max (depth value) (fieldsDepth rest)

end

end Json

end RelationalAlgebra
