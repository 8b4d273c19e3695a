import RelationalAlgebra.Table

/-!
# Relations

A relation is a base table or is derived from one or two other relations by a selection, a
projection or a join.  It is a tree that holds its operands.

**Identity.**  Every relation has an `id`, given when it is built.  Two relations built alike are
still two relations: joined to each other they are two units of a `FROM` clause, while a relation
cannot be joined to itself.

**Columns.**  What a relation shows is `Relation.columns`.  Each of its columns has a *source*, an
expression over the columns of the operands, which are numbered from the left (`Relation.inputs`).
The source of a table's column is its place among the declared columns.  Within one relation a
source occurs once, so a column can be found again from where it comes from.
-/

namespace RelationalAlgebra

/-! ## The tree -/

/-- The kinds of joins. -/
inductive JoinKind where
  | inner
  /-- Rows without a match on the right are kept, with nulls in the columns of the right. -/
  | leftOuter
  deriving DecidableEq, Repr

namespace JoinKind

/-- The words of a `FROM` clause. -/
def sqlName : JoinKind → String
  | .inner => "INNER JOIN"
  | .leftOuter => "LEFT OUTER JOIN"

/-- The name in a description. -/
def name : JoinKind → String
  | .inner => "inner join"
  | .leftOuter => "left join"

end JoinKind

/-- A column that a relation shows. -/
structure OutputColumn where
  name : String
  /-- The name it was given, if it was given one. -/
  label : Option String
  /-- What it shows of the operands' columns. -/
  source : Expr Nat
  deriving DecidableEq, Repr

/-- A relation. -/
inductive Relation where
  | table (table : Table)
  /-- The rows of the operand for which the condition holds. -/
  | selection (id : Nat) (operand : Relation) (condition : Expr Nat)
  /-- Some columns of the operand, or all columns of one table within it. -/
  | projection (id : Nat) (operand : Relation) (whole : Option Table) (shown : List OutputColumn)
  /-- Pairs of rows for which the condition holds. -/
  | join (id : Nat) (kind : JoinKind) (left right : Relation) (condition : Expr Nat)
  deriving DecidableEq, Repr

namespace Relation

/-- What tells a relation apart from every other one. -/
def id : Relation → Nat
  | .table t => t.id
  | .selection id .. => id
  | .projection id .. => id
  | .join id .. => id

/-- The name of the kind of a relation. -/
def kindName : Relation → String
  | .table _ => "table"
  | .selection .. => "selection"
  | .projection .. => "projection"
  | .join _ kind .. => kind.name

/-- A description for people. -/
def describe : Relation → String
  | .table t => "table " ++ t.name
  | .selection _ operand _ => "selection on " ++ operand.describe
  | .projection _ operand _ _ => "projection of " ++ operand.describe
  | .join _ kind left right _ => kind.name ++ " of " ++ left.describe ++ " and " ++ right.describe

/-- The base table, if the relation is one. -/
def table? : Relation → Option Table
  | .table t => some t
  | _ => none

/-! ## Columns -/

/-- Shows each column as it is. -/
def passThrough (columns : List OutputColumn) : List OutputColumn :=
  columns.mapIdx fun i c => ⟨c.name, none, .column i⟩

/-- The columns a join shows of its operands: those of the left before those of the right.  The
columns of one and the same relation are shown once. -/
def joined (left right : Relation) (leftColumns rightColumns : List OutputColumn) :
    List OutputColumn :=
  if left.id = right.id then leftColumns else leftColumns ++ rightColumns

/-- The columns of a relation, in their order. -/
def columns : Relation → List OutputColumn
  | .table t => t.columns.mapIdx fun i c => ⟨c.name, none, .column i⟩
  | .selection _ operand _ => passThrough operand.columns
  | .projection _ _ _ shown => shown
  | .join _ _ left right _ => passThrough (joined left right left.columns right.columns)

/-- The names of the columns. -/
def columnNames (r : Relation) : List String := r.columns.map (·.name)

/-- The number of columns. -/
def width (r : Relation) : Nat := r.columns.length

/-- A column by its place among the columns of a relation. -/
structure Reference where
  relation : Relation
  place : Nat
  deriving DecidableEq, Repr

/-- The operands of a relation, from the left. -/
def operands : Relation → List Relation
  | .table _ => []
  | .selection _ operand _ => [operand]
  | .projection _ operand _ _ => [operand]
  | .join _ _ left right _ => [left, right]

/-- The column at a place among the columns of several relations, counted from the left. -/
def locate : List Relation → Nat → Option Reference
  | [], _ => none
  | r :: rest, i => if i < r.width then some ⟨r, i⟩ else locate rest (i - r.width)

/-- The column a number in an expression of this relation stands for. -/
def input? (r : Relation) (i : Nat) : Option Reference := locate r.operands i

/-- The relations that stand in a `FROM` clause of their own when a relation is the left operand
of a join: the right side of each join down the left, and the leftmost operand. -/
def joinUnits : Relation → List Relation
  | .join _ _ left right _ => left.joinUnits ++ [right]
  | r => [r]

end Relation

end RelationalAlgebra
