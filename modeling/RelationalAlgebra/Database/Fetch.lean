import RelationalAlgebra.Database.Basic
import RelationalAlgebra.Sql.Compile
import RelationalAlgebra.Sql.Evaluate
import RelationalAlgebra.Sql.Reading

/-!
# Reading relations out of a database

A relation is compiled, its query is run over the stored rows, and each row of the outcome becomes
a tuple of the relation's shape.  A query that reads a table which was never created is refused.

An integer is read through a cell of 32 bits: what comes back of a stored number is its low 32 bits
as a signed number.
-/

namespace RelationalAlgebra

namespace Database

/-- A value as it is read. -/
def fetched : Value → Value
  | .integer n => .integer n.toInt32.toInt64
  | value => value

/-- The values of the placeholders as they are bound. -/
def boundValues (p : Sql.Placeholders) : Sql.Placeholders :=
  ⟨p.entries.map fun (name, value) => (name, (stored value).asNumber)⟩

/-- The rows of a compiled relation. -/
def run (db : Database) (c : Sql.Compiled) : Except Error (List Row) :=
  match (Sql.Query.tables c.query).find? fun t => !db.has t with
  | some t => .error (Refusal.missingTable t.name).error
  | none =>
    .ok <| (Sql.Query.rows db.rows (boundValues c.placeholders) c.query).map fun row =>
      Row.ofFields (row.map fun (name, value) => (name, fetched value))

/-- The rows of a relation. -/
def fetchRows (db : Database) (r : Relation) : Except Error (List Row) := do
  db.run (← Sql.compile r)

/-- The tuples of a relation. -/
def all (db : Database) (r : Relation) : Except Error (List Tuple) := do
  let c ← Sql.compile r
  return (← db.run c).map (Sql.Query.tuple c.query)

/-- The first tuple of a relation. -/
def first (db : Database) (r : Relation) : Except Error (Option Tuple) := do
  return (← db.all r).head?

/-- The tuple of a relation whose `id` has the value. -/
def find (db : Database) (a : Algebra) (r : Relation) (id : Value) :
    Except Error (Option Tuple) := do
  let (found, _) ← (Algebra.selectId r id).run a
  db.first found

end Database

end RelationalAlgebra
