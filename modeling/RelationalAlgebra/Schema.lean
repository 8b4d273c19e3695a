import RelationalAlgebra.Algebra
import RelationalAlgebra.Json.Basic
import RelationalAlgebra.Toml.Document

/-!
# Schemas

A schema lists tables with the names and the types of their columns.  It is read from TOML:

* `Schema.parse` reads a document; what it does not know it passes over.
* `Schema.algebra` declares all tables, and fails if one of them cannot be declared.
* `Schema.declareInto` declares the tables up to the first that cannot be declared.

The types stay text until a table is declared, so a schema can be read that cannot be declared.
-/

namespace RelationalAlgebra

/-- A column as it is described. -/
structure ColumnSchema where
  name : String
  type : String
  deriving DecidableEq, Repr

/-- A table as it is described. -/
structure TableSchema where
  name : String
  columns : List ColumnSchema
  deriving DecidableEq, Repr

/-- Tables as they are described. -/
structure Schema where
  tables : List TableSchema
  deriving DecidableEq, Repr

/-! ## Reading -/

/-- The column of a TOML value. -/
def ColumnSchema.ofToml? (value : Toml) : Option ColumnSchema := do
  let name ← (← value.part? "name" 0).string?
  let type ← (← value.part? "type" 1).string?
  return ⟨name, type⟩

/-- The table of a TOML value.  A table without columns has none. -/
def TableSchema.ofToml? (value : Toml) : Option TableSchema := do
  let name ← (← value.part? "name" 0).string?
  let columns ← (value.part? "columns" 1).elim (some []) Toml.items?
  return ⟨name, ← columns.mapM ColumnSchema.ofToml?⟩

/-- The schema of a TOML value.  A schema without tables has none. -/
def Schema.ofToml? (value : Toml) : Option Schema := do
  let tables ← (value.part? "tables" 0).elim (some []) Toml.items?
  return ⟨← tables.mapM TableSchema.ofToml?⟩

/-- The schema of a TOML document. -/
def Schema.parse (text : String) : Except Error Schema :=
  match (Toml.parse? text).bind ofToml? with
  | some schema => .ok schema
  | none => .error (.config "Failed to parse schema")

/-! ## Declaring -/

/-- The column with its type. -/
def ColumnSchema.typed (c : ColumnSchema) : Except Error (String × ColumnType) :=
  (ColumnType.parse c.type).map fun type => (c.name, type)

/-- Declares a table. -/
def TableSchema.declare (t : TableSchema) : Build Table := do
  let columns ← liftM (t.columns.mapM ColumnSchema.typed)
  Algebra.createTable t.name columns

namespace Schema

/-- Declares all tables in order. -/
def declare (s : Schema) : Build (List Table) := s.tables.mapM TableSchema.declare

/-- The relations of the tables of a schema alone. -/
def algebra (s : Schema) : Except Error Algebra :=
  (s.declare.run .empty).map (·.2)

/-- Declares tables in order up to the first that cannot be declared. -/
def declareTables : List TableSchema → Algebra → Algebra × Option Error
  | [], a => (a, none)
  | t :: rest, a =>
    match t.declare.run a with
    | .ok (_, a) => declareTables rest a
    | .error e => (a, some e)

/-- Declares the tables up to the first that cannot be declared; those before it stay. -/
def declareInto (s : Schema) (a : Algebra) : Algebra × Option Error := declareTables s.tables a

/-- The schema as JSON. -/
def toJson (s : Schema) : Json :=
  .ofFields [("tables", .array (s.tables.map fun t =>
    .ofFields [("name", .string t.name), ("columns", .array (t.columns.map fun c =>
      .ofFields [("name", .string c.name), ("type", .string c.type)]))]))]

end Schema

end RelationalAlgebra
