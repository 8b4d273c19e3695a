import RelationalAlgebra.Relation.Basic

/-!
# What a relation means

The rows of a relation over given contents of the base tables, by recursion on the tree:
`Relation.rows`.  A row lists its values in the order of the columns.

* A comparison with null is null, and only a comparison that is true keeps a row.
* A truth value is the number 1 or 0.
* A row without a match in an outer join is kept once, with nulls in the columns of the right
  operand.

Aggregates are outside of this meaning and are read as null.
-/

namespace RelationalAlgebra

/-! ## Values -/

namespace Value

/-- A truth value as a number; any other value is left as it is. -/
def asNumber : Value → Value
  | .boolean b => .integer (if b then 1 else 0)
  | value => value

/-- The outcome of a comparison. -/
def equals (a b : Value) : Value :=
  if a.isNull || b.isNull then .null else (Value.boolean (a.asNumber == b.asNumber)).asNumber

/-- Whether a value counts as true. -/
def isTrue (value : Value) : Bool := value.asNumber == .integer 1

end Value

/-- The value of an expression over the columns of a row. -/
def Expr.value (row : List Value) : Expr Nat → Value
  | .column i => row[i]?.getD .null
  | .literal value => value
  | .aliased expr _ => value row expr
  | .equal left right => (value row left).equals (value row right)
  | .aggregate _ _ => .null

/-! ## Joins -/

/-- Pairs every item on the left with the items on the right for which the pair is kept.  An item
without a match is dropped or, in an outer join, kept by itself. -/
def JoinKind.loop {α β γ : Type} (kind : JoinKind) (left : List α) (right : List β)
    (pair : α → β → γ) (alone : α → γ) (keep : γ → Bool) : List γ :=
  left.flatMap fun a =>
    match (right.map (pair a)).filter keep with
    | [] => if kind = .leftOuter then [alone a] else []
    | found => found

/-! ## Relations -/

/-- The contents of the base tables: the rows of each, a value for every column. -/
abbrev Contents := Table → List (List Value)

namespace Relation

/-- Nulls for all columns of a relation. -/
def nulls (r : Relation) : List Value := List.replicate r.width .null

/-- The rows of a relation.  A relation that is joined to itself shows its columns once. -/
def rows (contents : Contents) : Relation → List (List Value)
  | .table t => contents t
  | .selection _ operand condition =>
    (operand.rows contents).filter fun row => (condition.value row).isTrue
  | .projection _ operand _ shown =>
    (operand.rows contents).map fun row => shown.map fun c => c.source.value row
  | .join _ kind left right condition =>
    let pairs := kind.loop (left.rows contents) (right.rows contents) (· ++ ·) (· ++ right.nulls)
      fun row => (condition.value row).isTrue
    if left.id = right.id then pairs.map (·.take left.width) else pairs

end Relation

end RelationalAlgebra
