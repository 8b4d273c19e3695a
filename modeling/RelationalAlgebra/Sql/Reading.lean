import RelationalAlgebra.Sql.Query
import RelationalAlgebra.Tuple

/-!
# From rows to tuples

A query knows the shape of the tuples that its rows stand for.  A query with a projection gives
one record.  Any other gives what its `FROM` clause gives: the record of a single table, or the
records of all the units of a join, where a unit reads the values whose names start with its
qualifier, and a subquery reads them without it.
-/

namespace RelationalAlgebra.Sql

open QualifiedName

/-- The values of a row that belong to a unit, by the names they have within it. -/
def rowOf (qualifier : String) (row : Row) : Row :=
  row.filterMap fun (name, value) => (field? qualifier name).map fun field => (field, value)

/-- The record of a table, from names that may stand behind a qualifier. -/
def tableRecord (t : Table) (qualifier : Option String) (row : Row) : Record :=
  .ofRow (some t.name) (t.columns.map (·.name))
    (fun name =>
      match qualifier with
      | some q => qualify q name
      | none => name)
    row

/-- What a unit of a join adds to a tuple. -/
def componentsOf (qualifier : String) : Tuple → List (String × Option Record)
  | .record r => [(r.table.getD qualifier, if r.isAllNull then none else some r)]
  | .composite components => components

/-- How a unit reads a row, within a join under its qualifier. -/
abbrev UnitReader := Option String → Row → Tuple

/-- The tuple of a row, given how the units read it. -/
def sourceTuple (units : List (FromUnit × UnitReader)) (row : Row) : Option Source → Tuple
  | none => .record .empty
  | some (.unit place) =>
    match units[place]? with
    | some (_, read) => read none row
    | none => .record .empty
  | some source =>
    .composite <| source.units.flatMap fun place =>
      match units[place]? with
      | some (unit, read) =>
        componentsOf unit.qualifier.name (read (some unit.qualifier.name) row)
      | none => []

mutual

/-- The tuple a unit reads from a row, where the names of a table's columns may stand behind a
qualifier. -/
def FromUnit.tuple : FromUnit → UnitReader
  | .table t => fun qualifier row => .record (tableRecord t qualifier row)
  | .subquery _ label _ query => fun _ row => queryTuple query (rowOf label row)

/-- The tuple of a row of a query. -/
def queryTuple : QueryOf FromUnit → Row → Tuple
  | ⟨_, entries, source, _, units, shape, _⟩, row =>
    match shape with
    | some .entries =>
      .record (.ofRow none ((entries.getD []).map (·.name)) (fun name => name) row)
    | some (.table t) => .record (tableRecord t none row)
    | none => sourceTuple (unitTuples units) row source

/-- How each unit reads a row. -/
def unitTuples : List FromUnit → List (FromUnit × UnitReader)
  | [] => []
  | unit :: rest => (unit, unit.tuple) :: unitTuples rest

end

/-- The tuple of a row of a query. -/
def Query.tuple (q : Query) (row : Row) : Tuple := queryTuple q row

end RelationalAlgebra.Sql
