import RelationalAlgebra.Value

/-!
# Expressions

An expression reads columns, compares, aggregates and gives names.  How a column is referred to
is a parameter:

* in `Expr String` a column is written by its name, `title` or `blogs__title`;
* in `Expr Nat` it is bound: the number is the place of the column among the columns of the
  operands, counted from the left.

`Expr.bindNames` goes from the first to the second, given how a single name is bound.
-/

namespace RelationalAlgebra

/-! ## Aggregate functions -/

/-- A function of all the values of a column. -/
inductive Aggregate where
  | count
  | sum
  | avg
  | min
  | max
  deriving DecidableEq, Repr

namespace Aggregate

/-- The name of an aggregate column that has no alias. -/
def name : Aggregate → String
  | .count => "count"
  | .sum => "sum"
  | .avg => "avg"
  | .min => "min"
  | .max => "max"

/-- The name of the function in SQL. -/
def sqlName : Aggregate → String
  | .count => "COUNT"
  | .sum => "SUM"
  | .avg => "AVG"
  | .min => "MIN"
  | .max => "MAX"

end Aggregate

/-! ## Expressions -/

/-- An expression over columns referred to by `α`. -/
inductive Expr (α : Type) where
  | column (reference : α)
  | literal (value : Value)
  /-- The expression under another name. -/
  | aliased (expr : Expr α) (label : String)
  | equal (left right : Expr α)
  | aggregate (function : Aggregate) (argument : Expr α)
  deriving DecidableEq, Repr

namespace Expr

/-- The spelling of an expression in a diagnostic. -/
def display : Expr String → String
  | .column name => name
  | .literal value => value.display
  | .aliased expr label => expr.display ++ " AS " ++ label
  | .equal left right => left.display ++ " = " ++ right.display
  | .aggregate function argument => function.sqlName ++ "(" ++ argument.display ++ ")"

/-- Replaces every column reference, from left to right, stopping at the first that fails. -/
def bindNames {α β ε : Type} (bind : α → Except ε β) : Expr α → Except ε (Expr β)
  | .column reference => (bind reference).map .column
  | .literal value => .ok (.literal value)
  | .aliased expr label => (bindNames bind expr).map (.aliased · label)
  | .equal left right => do
    let left ← bindNames bind left
    let right ← bindNames bind right
    return .equal left right
  | .aggregate function argument => (bindNames bind argument).map (.aggregate function)

/-- Splits an alias off the outside of an expression. -/
def stripAlias {α : Type} : Expr α → Expr α × Option String
  | .aliased expr label => (expr, some label)
  | expr => (expr, none)

/-- The expression without the aliases on the outside of it and those inside. -/
def unaliased {α : Type} : Expr α → Expr α
  | .column reference => .column reference
  | .literal value => .literal value
  | .aliased expr _ => expr.unaliased
  | .equal left right => .equal left.unaliased right.unaliased
  | .aggregate function argument => .aggregate function argument.unaliased

/-- Whether two expressions have the same shape and their references match. -/
def matchesBy {α β : Type} (same : α → β → Bool) : Expr α → Expr β → Bool
  | .column a, .column b => same a b
  | .literal v, .literal w => v == w
  | .aliased e a, .aliased f b => a == b && matchesBy same e f
  | .equal l r, .equal l' r' => matchesBy same l l' && matchesBy same r r'
  | .aggregate f a, .aggregate g b => f == g && matchesBy same a b
  | _, _ => false

/-! ## First facts -/

theorem unaliased_unaliased {α : Type} (e : Expr α) : e.unaliased.unaliased = e.unaliased := by
  induction e with
  | column reference => rfl
  | literal value => rfl
  | aliased expr label ih => exact ih
  | equal left right ihl ihr => rw [unaliased, unaliased, ihl, ihr]
  | aggregate function argument ih => rw [unaliased, unaliased, ih]

theorem unaliased_ne_aliased {α : Type} (e inner : Expr α) (label : String) :
    e.unaliased ≠ .aliased inner label := by
  induction e with
  | column reference => simp [unaliased]
  | literal value => simp [unaliased]
  | aliased expr label' ih => exact ih
  | equal left right => simp [unaliased]
  | aggregate function argument => simp [unaliased]

end Expr

/-! ## Conditions -/

/-- A condition of a selection or a join, as it is given: an expression, or names with what they
are to be equal to. -/
inductive Predicate where
  | expr (expr : Expr String)
  | pairs (entries : List (String × Expr String))
  deriving DecidableEq, Repr

/-- The one equality a condition stands for. -/
def Predicate.equality : Predicate → Except Error (Expr String)
  | .expr (.equal left right) => .ok (.equal left right)
  | .expr _ => .error (.unsupportedPredicate 0)
  | .pairs [(name, value)] => .ok (.equal (.column name) value)
  | .pairs entries => .error (.unsupportedPredicate entries.length)

/-- The condition that the column `id` has a value. -/
def Predicate.hasId (id : Value) : Predicate := .pairs [("id", .literal id)]

end RelationalAlgebra
