import RelationalAlgebra.Expr.Basic
import RelationalAlgebra.QualifiedName
import RelationalAlgebra.Sql.Identifier

/-!
# Expressions of a statement

What an expression becomes in a `SELECT`: columns are references to a unit of the `FROM` clause
and literals are placeholders.

Text is put together from *fragments*, so that the places of names and placeholders in a statement
are known without reading it again: `Fragment.text` spells one and `spell` a list of them.
-/

namespace RelationalAlgebra.Sql

open QualifiedName

/-! ## Fragments -/

/-- A piece of a statement. -/
inductive Fragment where
  /-- Keywords, punctuation and names of functions, spelled as they stand. -/
  | words (text : String)
  | identifier (name : String)
  | placeholder (name : String)
  deriving DecidableEq, Repr

/-- The spelling of a piece. -/
def Fragment.text : Fragment → String
  | .words text => text
  | .identifier name => escape name
  | .placeholder name => ":" ++ name

/-- The spelling of a list of pieces. -/
def spell (fragments : List Fragment) : String := String.join (fragments.map (·.text))

/-- Lists of pieces with words between them. -/
def separated (separator : String) : List (List Fragment) → List Fragment
  | [] => []
  | [item] => item
  | item :: rest => item ++ .words separator :: separated separator rest

/-! ## Expressions -/

/-- What a column reference is qualified with. -/
inductive Qualifier where
  | table (name : String)
  | subquery (label : String)
  deriving DecidableEq, Repr

/-- The name that stands before the dot. -/
def Qualifier.name : Qualifier → String
  | .table name => name
  | .subquery label => label

/-- A reference to a column of a unit. -/
structure SqlColumn where
  qualifier : Qualifier
  /-- A declared column of the table, or a name that the subquery shows. -/
  name : String
  deriving DecidableEq, Repr

namespace SqlColumn

/-- The qualified name, `blogs__id` or `t2__posts__id`. -/
def qualifiedName (c : SqlColumn) : String := qualify c.qualifier.name c.name

/-- The pieces of a reference. -/
def fragments (c : SqlColumn) : List Fragment :=
  [.identifier c.qualifier.name, .words ".", .identifier c.name]

end SqlColumn

/-- An expression of a statement. -/
inductive SqlExpr where
  | column (column : SqlColumn)
  | placeholder (name : String)
  | equal (left right : SqlExpr)
  | aggregate (function : Aggregate) (argument : SqlExpr)
  deriving DecidableEq, Repr

namespace SqlExpr

/-- The pieces of an expression. -/
def fragments : SqlExpr → List Fragment
  | .column c => c.fragments
  | .placeholder name => [.placeholder name]
  | .equal left right => left.fragments ++ .words " = " :: right.fragments
  | .aggregate function argument =>
    .words (function.sqlName ++ "(") :: argument.fragments ++ [.words ")"]

/-- The spelling of an expression. -/
def text (e : SqlExpr) : String := spell e.fragments

/-- A name that differs between the two sides of a join. -/
def qualifiedName? : SqlExpr → Option String
  | .column c => some c.qualifiedName
  | .aggregate function _ => some function.name
  | .placeholder _ => none
  | .equal _ _ => none

/-- The name under which a `SELECT *` shows the expression. -/
def bareName? : SqlExpr → Option String
  | .column c => some c.name
  | _ => none

end SqlExpr

/-- An entry of a select list: an expression and the name it is shown under. -/
structure SelectEntry where
  name : String
  expr : SqlExpr
  deriving DecidableEq, Repr

namespace SelectEntry

/-- The pieces of an entry. -/
def fragments (e : SelectEntry) : List Fragment :=
  e.expr.fragments ++ [.words " AS ", .identifier e.name]

/-- The spelling of an entry. -/
def text (e : SelectEntry) : String := spell e.fragments

end SelectEntry

end RelationalAlgebra.Sql
