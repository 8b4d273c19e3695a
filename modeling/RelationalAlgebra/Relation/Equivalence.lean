import RelationalAlgebra.Relation.Lookup

/-!
# Relations that are built alike

Two relations are *equivalent* when they are built in the same way from the same tables:
`Relation.equivalent`.  What counts is the tree, not the moment of building; a base table is
equivalent to itself alone.  Two columns are the *same* when their relations are equivalent and
they carry the same label and show the same expression: `Relation.sameColumn`.

The two notions call for each other, since the condition of a selection is compared column by
column and a column by its relation.  `Relation.comparison` defines both at once, by recursion on
the tree.

Two expressions over columns of any relations are the same when they differ in nothing but which of
several same columns they read: `Expr.same`.
-/

namespace RelationalAlgebra

namespace Relation

/-- What it takes to compare a relation with others. -/
structure Comparison where
  /-- Whether another relation is built in the same way. -/
  equivalent : Relation → Bool
  /-- Whether a column of the operands is the same as a column of another relation's operands. -/
  sameInput : Nat → Relation → Nat → Bool

namespace Comparison

/-- Whether two columns carry the same label and show the same expression, whatever relations
they belong to. -/
def sameDerivation (c : Comparison) (column : OutputColumn) (other : Relation)
    (otherColumn : OutputColumn) : Bool :=
  column.label == otherColumn.label &&
    column.source.matchesBy (fun i j => c.sameInput i other j) otherColumn.source

/-- Whether a column of the relation `r` that `c` compares is the same as a column of another
one. -/
def sameColumn (c : Comparison) (r : Relation) (i : Nat) (other : Relation) (j : Nat) : Bool :=
  (r.id == other.id && i == j) ||
    (c.equivalent other &&
      match r.columns[i]?, other.columns[j]? with
      | some a, some b => c.sameDerivation a other b
      | _, _ => false)

/-- The same for a column of another relation's operands. -/
def sameAsInput (c : Comparison) (r : Relation) (i : Nat) (other : Relation) (j : Nat) : Bool :=
  match other.input? j with
  | some ⟨operand, k⟩ => c.sameColumn r i operand k
  | none => false

/-- Whether two lists of columns show the same expressions under the same aliases. -/
def sameDerivations (c : Comparison) (columns : List OutputColumn) (other : Relation)
    (otherColumns : List OutputColumn) : Bool :=
  columns.length == otherColumns.length &&
    (columns.zip otherColumns).all fun (a, b) => c.sameDerivation a other b

end Comparison

/-- How a relation compares with others. -/
def comparison : Relation → Comparison
  | .table t =>
    { equivalent := fun other => t.id == other.id
      sameInput := fun i other j =>
        match other with
        | .table u => t.id == u.id && i == j
        | _ => false }
  | .selection id operand condition =>
    let inner := operand.comparison
    let sameInput := inner.sameAsInput operand
    { sameInput
      equivalent := fun other =>
        id == other.id ||
          match other with
          | .selection _ operand' condition' =>
            inner.equivalent operand' &&
              condition.matchesBy (fun i j => sameInput i other j) condition'
          | _ => false }
  | .projection id operand whole shown =>
    let inner := operand.comparison
    let sameInput := inner.sameAsInput operand
    { sameInput
      equivalent := fun other =>
        id == other.id ||
          match other with
          | .projection _ operand' whole' shown' =>
            inner.equivalent operand' &&
              match whole, whole' with
              | some t, some t' => t.id == t'.id
              | none, none =>
                Comparison.sameDerivations ⟨fun _ => false, sameInput⟩ shown other shown'
              | _, _ => false
          | _ => false }
  | .join id kind left right condition =>
    let atLeft := left.comparison
    let atRight := right.comparison
    let sameInput := fun i other j =>
      if i < left.width then atLeft.sameAsInput left i other j
      else atRight.sameAsInput right (i - left.width) other j
    { sameInput
      equivalent := fun other =>
        id == other.id ||
          match other with
          | .join _ kind' left' right' condition' =>
            kind == kind' && atLeft.equivalent left' && atRight.equivalent right' &&
              condition.matchesBy (fun i j => sameInput i other j) condition'
          | _ => false }

/-- Whether two relations are built in the same way from the same tables. -/
def equivalent (r other : Relation) : Bool := r.comparison.equivalent other

/-- Whether a column of one relation is the same as a column of another. -/
def sameColumn (r : Relation) (i : Nat) (other : Relation) (j : Nat) : Bool :=
  r.comparison.sameColumn r i other j

end Relation

/-! ## Expressions -/

/-- A column that a name has been resolved to: a declared one, or one that a relation shows. -/
inductive BoundColumn where
  | declared (column : Relation.Physical)
  | shown (column : Relation.Reference)
  deriving DecidableEq, Repr

/-- Whether two columns are the same. -/
def BoundColumn.same : BoundColumn → BoundColumn → Bool
  | .declared p, .declared q => p.table.id == q.table.id && p.place == q.place
  | .shown c, .shown d => c.relation.sameColumn c.place d.relation d.place
  | _, _ => false

/-- Whether two expressions have the same shape and read the same columns. -/
def Expr.same (e f : Expr BoundColumn) : Bool := e.matchesBy BoundColumn.same f

end RelationalAlgebra
