import RelationalAlgebra.Algebra
import RelationalAlgebra.Sql.Placeholders
import RelationalAlgebra.Sql.Query

/-!
# From relations to queries

A relation becomes one query.  Selections add conditions to the query of their operand and
projections replace its select list; the operands of a join become units of the `FROM` clause,
where a chain of joins is unrolled to the left and every other operand that is not a base table is
a subquery of its own.

* **Columns.**  A column is followed from its relation to where it comes from, until it reaches a
  base table or a relation that is a subquery of the query being built, and is then a reference to
  that unit (`columnExpr`).  The outcome is remembered for the rest of the query, so that one
  column is written in one way.
* **Units.**  A relation becomes a unit once per query (`unitOf`).
* **Numbering.**  Aliases `t1`, `t2`, … and placeholders are numbered through all the subqueries
  of a query, in the order they are met.

`rendering` says of each relation what it is as a whole query, as the left operand of a join and
as a unit, by recursion on the relation.
-/

namespace RelationalAlgebra.Sql

open QualifiedName

/-! ## The state of a query being built -/

/-- A column of a relation: the relation's identity and the place. -/
abbrev ColumnKey := Nat × Nat

/-- A query being built. -/
structure Draft where
  query : Query
  /-- How the columns met so far are written. -/
  written : List (ColumnKey × SqlExpr)
  /-- How many subqueries there are, those of subqueries and of the queries around included. -/
  subqueries : Nat
  placeholders : Placeholders

/-- The start of a query. -/
def Draft.start (relation : Relation) (subqueries : Nat) (placeholders : Placeholders) : Draft :=
  ⟨Query.start relation, [], subqueries, placeholders⟩

/-- A step in building a query. -/
abbrev Compile (α : Type) := StateT Draft (Except Error) α

/-- Changes the query. -/
def modifyQuery (change : Query → Query) : Compile Unit :=
  modify fun d => { d with query := change d.query }

/-- A placeholder for a value. -/
def addPlaceholder (value : Value) : Compile SqlExpr := do
  let d ← get
  let (name, placeholders) := d.placeholders.add value
  set { d with placeholders }
  return .placeholder name

/-- Sets the `FROM` clause.  A query has one. -/
def setSource (source : Source) : Compile Unit := do
  if (← get).query.source.isSome then
    throw .sourceAssigned
  modifyQuery fun q => { q with source := some source }

/-! ## Columns and expressions -/

/-- The subquery a relation is, if it is one, with the name it shows a column under. -/
def exposure? (units : List FromUnit) (relation : Nat) (place : Nat) :
    Option (String × Option String) :=
  units.findSome? fun
    | .subquery r label exposed _ =>
      if r.id = relation then some (label, exposed[place]?.join) else none
    | .table _ => none

/-- An expression, given how the columns of the operands are written. -/
def exprOf (column : Nat → Compile SqlExpr) : Expr Nat → Compile SqlExpr
  | .column i => column i
  | .literal value => addPlaceholder value
  | .aliased expr _ => exprOf column expr
  | .equal left right => do
    let left ← exprOf column left
    let right ← exprOf column right
    return .equal left right
  | .aggregate function argument => return .aggregate function (← exprOf column argument)

/-- Writes a column as it was written before, else as a reference to the subquery its relation
is, else as it is written from its source. -/
def remembered (r : Relation) (i : Nat) (fromSource : Compile SqlExpr) : Compile SqlExpr := do
  let d ← get
  match d.written.lookup (r.id, i) with
  | some e => return e
  | none =>
    let e ←
      match exposure? d.query.units r.id i with
      | some (label, some name) => pure (.column ⟨.subquery label, name⟩)
      | some (_, none) => throw (.columnNotExposed ((r.columnNames[i]?).getD ""))
      | none => fromSource
    modify fun d => { d with written := ((r.id, i), e) :: d.written }
    return e

/-- How a column is written. -/
def columnExpr : Relation → Nat → Compile SqlExpr
  | .table t, i =>
    remembered (.table t) i <|
      match t.columns[i]? with
      | some c => pure (.column ⟨.table t.name, c.name⟩)
      | none => throw (.columnNotExposed "")
  | .selection id operand condition, i =>
    remembered (.selection id operand condition) i (columnExpr operand i)
  | .projection id operand whole shown, i =>
    remembered (.projection id operand whole shown) i <|
      match shown[i]? with
      | some c => exprOf (columnExpr operand) c.source
      | none => throw (.columnNotExposed "")
  | .join id kind left right condition, i =>
    remembered (.join id kind left right condition) i <|
      if i < left.width then columnExpr left i else columnExpr right (i - left.width)

/-- How a column of the operands of a join is written. -/
def joinColumnExpr (left right : Relation) (i : Nat) : Compile SqlExpr :=
  if i < left.width then columnExpr left i else columnExpr right (i - left.width)

/-- The select list of a relation, each column under the name that `name` chooses. -/
def entriesOf (r : Relation) (name : OutputColumn → SqlExpr → String) :
    Compile (List SelectEntry) :=
  r.columns.zipIdx.mapM fun (c, i) => do
    let e ← columnExpr r i
    return ⟨name c e, e⟩

/-! ## Units -/

/-- The name under which a finished query shows a column of its relation: that of the first entry
with its expression, or its bare name if everything is shown. -/
def exposedName? (d : Draft) (r : Relation) (i : Nat) : Option String :=
  match (columnExpr r i).run d with
  | .error _ => none
  | .ok (e, _) =>
    match d.query.entries with
    | some entries => (entries.find? (·.expr == e)).map (·.name)
    | none => e.bareName?

/-- A relation as a subquery, given how it is built as a query. -/
def subqueryOf (r : Relation) (whole : Compile Unit) : Compile FromUnit := do
  let d ← get
  let n := d.subqueries + 1
  let ((), inner) ← liftM (whole.run (Draft.start r n d.placeholders))
  set { d with subqueries := inner.subqueries, placeholders := inner.placeholders }
  let exposed := (List.range r.width).map (exposedName? inner r)
  return .subquery r ("t" ++ toString n) exposed inner.query

/-- The place of the unit of a relation, which is made unless it is there. -/
def unitOf (r : Relation) (make : Compile FromUnit) : Compile Nat := do
  match (← get).query.units.findIdx? (·.relation.id == r.id) with
  | some place => return place
  | none =>
    let unit ← make
    let place := (← get).query.units.length
    modifyQuery fun q => { q with units := q.units ++ [unit] }
    return place

/-! ## Relations -/

/-- What a relation is in each of the places it can stand in. -/
structure Rendering where
  /-- As the relation of a query. -/
  whole : Compile Unit
  /-- As the left operand of a join. -/
  operand : Compile Source
  /-- As a unit of a `FROM` clause. -/
  unit : Compile Nat

/-- What a relation is that is no join and no base table: a subquery wherever it is not the whole
query. -/
def Rendering.nested (r : Relation) (whole : Compile Unit) : Rendering :=
  let unit := unitOf r (subqueryOf r whole)
  { whole, unit, operand := return .unit (← unit) }

/-- What a relation is in each of the places it can stand in. -/
def rendering : Relation → Rendering
  | .table t =>
    let unit := unitOf (.table t) (pure (.table t))
    { unit
      operand := return .unit (← unit)
      whole := do setSource (.unit (← unit)) }
  | .selection id operand condition =>
    .nested (.selection id operand condition) do
      (rendering operand).whole
      let condition ← exprOf (columnExpr operand) condition
      modifyQuery fun q => { q with conditions := q.conditions ++ [condition] }
  | .projection id operand whole shown =>
    .nested (.projection id operand whole shown) do
      (rendering operand).whole
      let entries ← entriesOf (.projection id operand whole shown) fun c _ => c.name
      modifyQuery fun q => { q with entries := some entries }
      match whole with
      | some t =>
        modifyQuery fun q =>
          { q with
            projected := q.units.findIdx? (·.relation.id == t.id)
            shape := some (.table t) }
      | none => modifyQuery fun q => { q with shape := some .entries }
  | .join id kind left right condition =>
    let source : Compile Source := do
      let leftSource ← (rendering left).operand
      let rightUnit ← (rendering right).unit
      let condition ← exprOf (joinColumnExpr left right) condition
      return .join kind leftSource rightUnit condition
    let r := Relation.join id kind left right condition
    let whole := do
      setSource (← source)
      let entries ← entriesOf r fun c e => e.qualifiedName?.getD c.name
      modifyQuery fun q => { q with entries := some entries }
    { whole
      operand := source
      unit := unitOf r (subqueryOf r whole) }

/-- A query with the values of its placeholders. -/
structure Compiled where
  query : Query
  placeholders : Placeholders

/-- The text of the query. -/
def Compiled.sql (c : Compiled) : String := Query.sql c.query

/-- Compiles a relation. -/
def compile (r : Relation) : Except Error Compiled := do
  let ((), d) ← (rendering r).whole.run (Draft.start r 0 .empty)
  return ⟨d.query, d.placeholders⟩

end RelationalAlgebra.Sql
