import RelationalAlgebra.Value

/-!
# Tuples

A row comes from a database as flat values by name.  A tuple has the shape of the relation: one
record, or one record for each unit of a join.  A unit of a join whose values are all null has no
record: that is what an outer join leaves of a row without a match.
-/

namespace RelationalAlgebra

/-! ## Rows -/

/-- Values by name, each name once. -/
abbrev Row := List (String × Value)

namespace Row

/-- The value of a name, null if there is none. -/
def value (row : Row) (name : String) : Value := (row.lookup name).getD .null

/-- Puts a value in; the value of that name is replaced. -/
def insert (row : Row) (name : String) (value : Value) : Row :=
  if row.any (·.1 == name) then
    row.map fun (other, old) => (other, if other == name then value else old)
  else row ++ [(name, value)]

/-- The row of a list of named values; of a repeated name the last value stays. -/
def ofFields (fields : List (String × Value)) : Row :=
  fields.foldl (fun row (name, value) => row.insert name value) []

end Row

/-! ## Records -/

/-- Fields in order, and the table whose columns they are, if they are a table's columns. -/
structure Record where
  table : Option String
  fields : List (String × Value)
  deriving DecidableEq, Repr

namespace Record

/-- A record without fields. -/
def empty : Record := ⟨none, []⟩

/-- The first value of a name. -/
def get? (r : Record) (name : String) : Option Value := r.fields.lookup name

/-- Whether no field has a value. -/
def isAllNull (r : Record) : Bool := r.fields.all fun (_, value) => value.isNull

/-- The record as a JSON object; of a repeated name the last value stays. -/
def toJson (r : Record) : Json := .ofFields (r.fields.map fun (name, value) => (name, value.toJson))

/-- The record as the text of a JSON object with its fields in order, repeated ones as well. -/
def text (r : Record) : String :=
  Json.objectText (r.fields.map fun (name, value) => (name, value.toJson.compact))

/-- Reads fields out of a row, each under a name made from its own. -/
def ofRow (table : Option String) (names : List String) (key : String → String) (row : Row) :
    Record :=
  ⟨table, names.map fun name => (name, row.value (key name))⟩

end Record

/-! ## Tuples -/

/-- A row in the shape of its relation. -/
inductive Tuple where
  | record (record : Record)
  /-- A record for each unit of a join, by the name of its table or its alias. -/
  | composite (components : List (String × Option Record))
  deriving DecidableEq, Repr

namespace Tuple

/-- The record, if the tuple is one. -/
def record? : Tuple → Option Record
  | .record r => some r
  | .composite _ => none

/-- The record of a unit, if there is such a unit and it has one. -/
def component? (t : Tuple) (key : String) : Option Record :=
  match t with
  | .record r => if r.table = some key then some r else none
  | .composite components => (components.lookup key).join

/-- The tuple as a JSON value; a unit without a record is null. -/
def toJson : Tuple → Json
  | .record r => r.toJson
  | .composite components =>
    .ofFields (components.map fun (key, part) =>
      (key, match part with
        | some r => r.toJson
        | none => .null))

/-- The values of a tuple with the names of their columns.  Within a join the name of the unit
stands before; a unit without a record has no values. -/
def cells : Tuple → List (String × Value)
  | .record r => r.fields
  | .composite components =>
    components.flatMap fun (key, part) =>
      match part with
      | some r => r.fields.map fun (name, value) => (key ++ "." ++ name, value)
      | none => []

end Tuple

end RelationalAlgebra
