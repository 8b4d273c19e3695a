import RelationalAlgebra.Relation.Lookup
import RelationalAlgebra.Sql.Expression

/-!
# Queries

A query is one `SELECT`: what it shows, where it reads from, and the conditions on its rows.  Its
`FROM` clause is built from *units*, each a base table or a query of its own under an alias.  A
unit is named by its place in the list of units, which is in the order the units were met.

`Query.fragments` is the text of a query in pieces, `Query.sql` the text.
-/

namespace RelationalAlgebra.Sql

/-! ## Parts of a query -/

/-- A `FROM` clause: a unit, or a join whose right side is a unit. -/
inductive Source where
  | unit (place : Nat)
  | join (kind : JoinKind) (left : Source) (right : Nat) (condition : SqlExpr)
  deriving DecidableEq, Repr

/-- The places of the units, from left to right. -/
def Source.units : Source → List Nat
  | .unit place => [place]
  | .join _ left right _ => left.units ++ [right]

/-- How a row becomes a tuple, where the `FROM` clause does not say it. -/
inductive TupleShape where
  /-- One record with the entries of the select list. -/
  | entries
  /-- One record with the columns of a table. -/
  | table (table : Table)
  deriving DecidableEq, Repr

/-- A query over units of type `υ`. -/
structure QueryOf (υ : Type) where
  relation : Relation
  /-- What is shown; nothing here stands for everything. -/
  entries : Option (List SelectEntry)
  source : Option Source
  conditions : List SqlExpr
  units : List υ
  shape : Option TupleShape
  /-- The place of the unit of the table that is passed on as a whole. -/
  projected : Option Nat

/-- A unit of a `FROM` clause. -/
inductive FromUnit where
  | table (table : Table)
  /-- A query under an alias, with the name it shows each column of its relation under. -/
  | subquery (relation : Relation) (label : String) (exposed : List (Option String))
      (query : QueryOf FromUnit)

/-- A query. -/
abbrev Query := QueryOf FromUnit

/-- A query of which nothing is known but the relation. -/
def Query.start (relation : Relation) : Query :=
  ⟨relation, none, none, [], [], none, none⟩

namespace FromUnit

/-- The relation a unit stands for. -/
def relation : FromUnit → Relation
  | .table t => .table t
  | .subquery relation .. => relation

/-- The qualifier of references to a unit. -/
def qualifier : FromUnit → Qualifier
  | .table t => .table t.name
  | .subquery _ label _ _ => .subquery label

end FromUnit

/-! ## Tables -/

/-- What the units of a `FROM` clause hold, from left to right. -/
def Source.gather {α : Type} (units : List (List α)) (source : Source) : List α :=
  source.units.flatMap fun place => units[place]?.getD []

mutual

/-- The base tables that a unit reads, from left to right. -/
def FromUnit.tables : FromUnit → List Table
  | .table t => [t]
  | .subquery _ _ _ query => queryTables query

/-- The base tables that a query reads, from left to right. -/
def queryTables : QueryOf FromUnit → List Table
  | ⟨_, _, source, _, units, _, _⟩ =>
    match source with
    | some source => source.gather (unitTables units)
    | none => []

/-- The base tables that each unit reads. -/
def unitTables : List FromUnit → List (List Table)
  | [] => []
  | unit :: rest => unit.tables :: unitTables rest

end

/-- The base tables that a query reads, from left to right. -/
def Query.tables (q : Query) : List Table := queryTables q

/-! ## Text -/

/-- The pieces of a list that is shown; an empty one is written as everything. -/
def selectFragments : Option (List SelectEntry) → List Fragment
  | some (e :: entries) => separated ", " ((e :: entries).map (·.fragments))
  | _ => [.words "*"]

/-- The pieces of a `FROM` clause, given the pieces of the units. -/
def Source.fragments (units : List (List Fragment)) : Source → List Fragment
  | .unit place => units[place]?.getD []
  | .join kind left right condition =>
    left.fragments units ++ .words (" " ++ kind.sqlName ++ " ") :: units[right]?.getD [] ++
      .words " ON " :: condition.fragments

/-- The pieces of a query, given the pieces of its units. -/
def queryFragments (entries : Option (List SelectEntry)) (source : Option Source)
    (conditions : List SqlExpr) (units : List (List Fragment)) : List Fragment :=
  .words "SELECT " :: selectFragments entries ++
    (match source with
    | some source => .words " FROM " :: source.fragments units
    | none => []) ++
    (match conditions with
    | [] => []
    | c :: rest => .words " WHERE " :: separated " AND " ((c :: rest).map (·.fragments)))

mutual

/-- The pieces of a unit. -/
def FromUnit.fragments : FromUnit → List Fragment
  | .table t => [.identifier t.name]
  | .subquery _ label _ query =>
    .words "(" :: queryOfFragments query ++ [.words ") AS ", .identifier label]

/-- The pieces of a query. -/
def queryOfFragments : QueryOf FromUnit → List Fragment
  | ⟨_, entries, source, conditions, units, _, _⟩ =>
    queryFragments entries source conditions (unitFragments units)

/-- The pieces of each unit. -/
def unitFragments : List FromUnit → List (List Fragment)
  | [] => []
  | unit :: rest => unit.fragments :: unitFragments rest

end

namespace Query

/-- The pieces of a query. -/
def fragments (q : Query) : List Fragment := queryOfFragments q

/-- The text of a query. -/
def sql (q : Query) : String := spell (fragments q)

/-- The pieces of the `FROM` clause. -/
def sourceFragments (q : Query) : List Fragment :=
  match q.source with
  | some source => source.fragments (unitFragments q.units)
  | none => []

end Query

end RelationalAlgebra.Sql
