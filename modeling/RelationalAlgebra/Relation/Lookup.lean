import RelationalAlgebra.Relation.Basic

/-!
# Finding columns and tables by name

A name is passed down to the operands, the left one before the right one, and what is found there
is found again among the relation's own columns.  A projection changes the names: a plain name is
looked for among the names it shows, a qualified name still speaks of the tables below.

* `Relation.find?` finds the place of a column.
* `Relation.tableNamed?` finds the table a table projection can pick out.
* `Relation.physical?` follows a column down to the declared column it reads.
-/

namespace RelationalAlgebra

open QualifiedName

namespace Relation

/-- The place of the column with a source among the columns shown. -/
def showing? (shown : List OutputColumn) (source : Expr Nat) : Option Nat :=
  shown.findIdx? (·.source == source)

/-- The place of the column a name stands for. -/
def find? : Relation → String → Option Nat
  | .table t, name => t.position? name
  | .selection _ operand _, name => operand.find? name
  | .projection _ operand _ shown, name =>
    if isQualified name then
      match operand.find? name with
      | some i => showing? shown (.column i)
      | none => none
    else shown.findIdx? (·.name == name)
  | .join _ _ left right _, name =>
    match left.find? name with
    | some i => some i
    | none => (right.find? name).map (left.width + ·)

/-- The place, among the columns of several relations, of the column a name stands for.  The
first relation that has the name wins. -/
def findIn? : List Relation → String → Option Nat
  | [], _ => none
  | r :: rest, name =>
    match r.find? name with
    | some i => some i
    | none => (findIn? rest name).map (r.width + ·)

/-- The base table of a name that can be reached from a relation.  Behind a projection only the
table that it passes on can. -/
def tableNamed? : Relation → String → Option Table
  | .table t, name => if t.name = name then some t else none
  | .selection _ operand _, name => operand.tableNamed? name
  | .projection _ _ whole _, name => whole.filter (·.name == name)
  | .join _ _ left right _, name =>
    match left.tableNamed? name with
    | some t => some t
    | none => right.tableNamed? name

/-! ## Lineage -/

/-- A declared column: its table and its place there. -/
structure Physical where
  table : Table
  place : Nat
  deriving DecidableEq, Repr

/-- The declaration. -/
def Physical.column? (p : Physical) : Option Column := p.table.columns[p.place]?

/-- The declared column that a column reads, if it reads one as it is. -/
def physical? : Relation → Nat → Option Physical
  | .table t, i => if i < t.columns.length then some ⟨t, i⟩ else none
  | .selection _ operand _, i => operand.physical? i
  | .projection _ operand _ shown, i =>
    match shown[i]? with
    | some ⟨_, _, .column j⟩ => operand.physical? j
    | _ => none
  | .join _ _ left right _, i =>
    if i < left.width then left.physical? i else right.physical? (i - left.width)

/-- The qualified name of the declared column that a column reads, else the column's own name. -/
def qualifiedColumnName (r : Relation) (i : Nat) (column : OutputColumn) : String :=
  match (r.physical? i).bind fun p => p.column?.map fun c => qualify p.table.name c.name with
  | some name => name
  | none => column.name

end Relation

end RelationalAlgebra
