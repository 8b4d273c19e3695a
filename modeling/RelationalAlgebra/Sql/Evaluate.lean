import RelationalAlgebra.Relation.Meaning
import RelationalAlgebra.Sql.Placeholders
import RelationalAlgebra.Sql.Query
import RelationalAlgebra.Tuple

/-!
# What a query means

The rows of a query over given contents of the base tables, by nested loops: units from left to
right, joins as they are met, then the conditions, then the select list.

* A comparison with null is null, and only a comparison that is true keeps a row.
* A row without a match in an outer join is kept once, with nulls for the columns of the unit.
* Every subquery is evaluated on its own.

Aggregates are outside of this meaning and are read as null.
-/

namespace RelationalAlgebra.Sql

/-! ## Expressions -/

/-- What a unit is within a statement: its qualifier, its columns and its rows. -/
structure UnitRows where
  qualifier : String
  fields : List String
  rows : List Row

/-- A row of each of some units, by qualifier. -/
abbrev Scope := List (String × Row)

/-- The value of an expression. -/
def SqlExpr.value (placeholders : Placeholders) (scope : Scope) : SqlExpr → Value
  | .column c =>
    match scope.lookup c.qualifier.name with
    | some row => row.value c.name
    | none => .null
  | .placeholder name => (placeholders.get? name).getD .null
  | .equal left right => (left.value placeholders scope).equals (right.value placeholders scope)
  | .aggregate _ _ => .null

/-- Whether a condition is true. -/
def SqlExpr.holds (placeholders : Placeholders) (scope : Scope) (condition : SqlExpr) : Bool :=
  (condition.value placeholders scope).isTrue

/-! ## The `FROM` clause -/

/-- The rows of a unit as rows of a statement. -/
def UnitRows.scopes (u : UnitRows) : List Scope := u.rows.map fun row => [(u.qualifier, row)]

/-- The row that stands for no match in a unit. -/
def UnitRows.missing (u : UnitRows) : Scope :=
  [(u.qualifier, u.fields.map fun name => (name, .null))]

/-- The rows of a `FROM` clause. -/
def Source.scopes (placeholders : Placeholders) (units : List UnitRows) : Source → List Scope
  | .unit place =>
    match units[place]? with
    | some u => u.scopes
    | none => []
  | .join kind left right condition =>
    match units[right]? with
    | some u =>
      kind.loop (left.scopes placeholders units) u.scopes (· ++ ·) (· ++ u.missing)
        (condition.holds placeholders)
    | none => []

/-! ## Queries -/

/-- The names a query shows. -/
def fieldsOf (entries : Option (List SelectEntry)) (source : Option Source)
    (units : List UnitRows) : List String :=
  match entries with
  | some (e :: rest) => (e :: rest).map (·.name)
  | _ =>
    match source with
    | some source => source.units.flatMap fun place => (units[place]?.map (·.fields)).getD []
    | none => []

/-- What a query shows of a row of its `FROM` clause. -/
def showRow (placeholders : Placeholders) (entries : Option (List SelectEntry)) (scope : Scope) :
    Row :=
  match entries with
  | some (e :: rest) => (e :: rest).map fun e => (e.name, e.expr.value placeholders scope)
  | _ => scope.flatMap (·.2)

/-- The rows of a query, given those of its units. -/
def rowsOf (placeholders : Placeholders) (entries : Option (List SelectEntry))
    (source : Option Source) (conditions : List SqlExpr) (units : List UnitRows) : List Row :=
  let scopes :=
    match source with
    | some source => source.scopes placeholders units
    | none => [[]]
  (scopes.filter fun scope => conditions.all (·.holds placeholders scope)).map
    (showRow placeholders entries)

/-- The rows of a base table with the names of its columns. -/
def tableRows (contents : Contents) (t : Table) : List Row :=
  (contents t).map fun values => (t.columns.map (·.name)).zip values

mutual

/-- The rows of a unit. -/
def FromUnit.rows (contents : Contents) (placeholders : Placeholders) : FromUnit → UnitRows
  | .table t => ⟨t.name, t.columns.map (·.name), tableRows contents t⟩
  | .subquery _ label _ query =>
    let (fields, rows) := queryRows contents placeholders query
    ⟨label, fields, rows⟩

/-- The names a query shows, and its rows. -/
def queryRows (contents : Contents) (placeholders : Placeholders) :
    QueryOf FromUnit → List String × List Row
  | ⟨_, entries, source, conditions, units, _, _⟩ =>
    let units := unitRows contents placeholders units
    (fieldsOf entries source units, rowsOf placeholders entries source conditions units)

/-- The rows of each unit. -/
def unitRows (contents : Contents) (placeholders : Placeholders) : List FromUnit → List UnitRows
  | [] => []
  | unit :: rest => unit.rows contents placeholders :: unitRows contents placeholders rest

end

/-- The rows of a query. -/
def Query.rows (contents : Contents) (placeholders : Placeholders) (q : Query) : List Row :=
  (queryRows contents placeholders q).2

end RelationalAlgebra.Sql
