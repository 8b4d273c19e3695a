import RelationalAlgebra.QualifiedName
import RelationalAlgebra.Expr.Basic

/-!
# Base tables

A table has a name and its columns in the order of their declaration.  A column declared again
keeps its place and takes the new type (`Table.declare`), so the names of a table's columns are
pairwise different.

A column is looked up by its plain name or by its name qualified with the table's own name; a
name qualified with anything else finds nothing (`Table.position?`).
-/

namespace RelationalAlgebra

open QualifiedName

/-- A column of a base table. -/
structure Column where
  name : String
  type : ColumnType
  deriving DecidableEq, Repr

/-- Declares a column behind the ones there are, or changes the type of the one of that name. -/
def declareColumn (columns : List Column) (name : String) (type : ColumnType) : List Column :=
  if columns.any (·.name == name) then
    columns.map fun c => if c.name == name then { c with type } else c
  else columns ++ [⟨name, type⟩]

/-- A base table. -/
structure Table where
  /-- What tells the table apart from every other relation. -/
  id : Nat
  name : String
  columns : List Column
  deriving DecidableEq, Repr

namespace Table

/-- The table with the given columns declared in turn. -/
def declare (id : Nat) (name : String) (columns : List (String × ColumnType)) : Table where
  id
  name
  columns := columns.foldl (fun done (column, type) => declareColumn done column type) []

/-- The name to look for among the columns: the field of a name qualified with this table, a
plain name as it is. -/
def ownName? (t : Table) (name : String) : Option String :=
  match split name with
  | some (qualifier, field) => if qualifier = t.name then some field else none
  | none => some name

/-- The place of a column among the declared ones. -/
def position? (t : Table) (name : String) : Option Nat :=
  (t.ownName? name).bind fun own => t.columns.findIdx? (·.name == own)

/-- The column of a name. -/
def get? (t : Table) (name : String) : Option Column :=
  (t.position? name).bind fun i => t.columns[i]?

/-- The qualified name of one of the table's columns. -/
def qualified (t : Table) (column : String) : String := qualify t.name column

/-- Every column, referred to by its qualified name and exposed under its own. -/
def qualifiedColumns (t : Table) : List (Expr String) :=
  t.columns.map fun c => .aliased (.column (t.qualified c.name)) c.name

end Table

end RelationalAlgebra
