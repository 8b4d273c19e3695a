import RelationalAlgebra.Algebra

/-!
# Arenas

An arena keeps relations and the columns they show side by side and refers to both by *handles*, the
numbers of their places.  Nothing is ever taken out or changed, so a handle that was given out stays
good.

* A **node** is a relation: an operator over the handles of its operands, and the columns it shows.
* A **derived column** belongs to one relation and has an *ancestor*, an expression over columns of
  the operands.  A relation finds its columns by ancestor and by name (`Memo`).

`Arena.find` finds the column that a name stands for, `Arena.reach` the table of a name, and
`Arena.relation` reads a relation as a tree.  They follow handles, and say so if one leads nowhere
(`Stop.dangling`).
-/

namespace RelationalAlgebra

open QualifiedName

namespace Arena

/-! ## What an arena holds -/

/-- A column that an expression reads. -/
inductive ColumnHandle where
  /-- A declared column of the base table of this handle. -/
  | declared (table place : Nat)
  | derived (column : Nat)
  deriving DecidableEq, Repr

/-- A column that a relation shows. -/
structure Derived where
  /-- The relation that shows it. -/
  owner : Nat
  /-- What it shows of the operands' columns. -/
  ancestor : Expr ColumnHandle
  /-- The name it was given, if it was given one. -/
  label : Option String
  name : String
  deriving DecidableEq, Repr

/-- The columns of a relation in their order, with what they are found by.  What was put in last is
found first. -/
structure Memo where
  order : List Nat
  byAncestor : List (Expr ColumnHandle × Nat)
  byName : List (String × Nat)
  deriving DecidableEq, Repr

namespace Memo

/-- No columns. -/
def empty : Memo := ⟨[], [], []⟩

/-- Puts a column in. -/
def insert (memo : Memo) (column : Nat) (ancestor : Expr ColumnHandle) (name : String) : Memo :=
  ⟨memo.order ++ [column], (ancestor, column) :: memo.byAncestor, (name, column) :: memo.byName⟩

/-- The column that shows a column of the operands as it is. -/
def passing? (memo : Memo) (column : Nat) : Option Nat :=
  memo.byAncestor.lookup (.column (.derived column))

end Memo

/-- What a relation does with its operands. -/
inductive Operator where
  | table (table : Table)
  | selection (operand : Nat) (condition : Expr ColumnHandle)
  /-- The table that is passed on as a whole, or else the columns that were asked for. -/
  | projection (operand : Nat) (whole : Option Nat) (shown : List Nat)
  | join (kind : JoinKind) (left right : Nat) (condition : Expr ColumnHandle)
  deriving DecidableEq, Repr

/-- The relations that an operator speaks of. -/
def Operator.handles : Operator → List Nat
  | .table _ => []
  | .selection operand _ => [operand]
  | .projection operand whole _ => operand :: whole.toList
  | .join _ left right _ => [left, right]

/-- A relation. -/
structure Node where
  operator : Operator
  memo : Memo
  deriving DecidableEq, Repr

/-- Why work on an arena stops. -/
inductive Stop where
  | failure (cause : Error)
  /-- A handle leads nowhere. -/
  | dangling
  deriving DecidableEq, Repr

end Arena

/-- Relations and the columns they show. -/
structure Arena where
  nodes : List Arena.Node
  derived : List Arena.Derived
  tablesByName : List (String × Nat)
  deriving DecidableEq, Repr

namespace Arena

/-- Nothing. -/
def empty : Arena := ⟨[], [], []⟩

/-! ## Following handles -/

/-- What a place holds. -/
def follow {α : Type} : Option α → Except Stop α
  | some a => .ok a
  | none => .error .dangling

/-- The relation of a handle. -/
def node (a : Arena) (r : Nat) : Except Stop Node := follow a.nodes[r]?

/-- The columns of a relation. -/
def columns (a : Arena) (r : Nat) : Except Stop (List Nat) := (a.node r).map (·.memo.order)

/-- The derived column of a handle. -/
def column (a : Arena) (column : Nat) : Except Stop Derived := follow a.derived[column]?

/-- The base table of a handle. -/
def table (a : Arena) (r : Nat) : Except Stop Table := do
  match (← a.node r).operator with
  | .table t => return t
  | _ => throw .dangling

/-- The handle of the base table of a name. -/
def tableNamed? (a : Arena) (name : String) : Option Nat := a.tablesByName.lookup name

/-! ## Finding columns and tables by name -/

/-- The column of a relation that a name stands for.  What a name finds in the operands is found again
by the columns that show it. -/
def find (a : Arena) (r : Nat) (name : String) : Except Stop (Option Nat) :=
  match a.nodes[r]? with
  | none => .error .dangling
  | some ⟨.table t, memo⟩ =>
    match t.position? name with
    | some i => (follow memo.order[i]?).map some
    | none => .ok none
  | some ⟨.selection operand _, memo⟩ =>
    if operand < r then (a.find operand name).map (·.bind memo.passing?) else .error .dangling
  | some ⟨.projection operand _ _, memo⟩ =>
    if isQualified name then
      if operand < r then (a.find operand name).map (·.bind memo.passing?) else .error .dangling
    else .ok (memo.byName.lookup name)
  | some ⟨.join _ left right _, memo⟩ =>
    if left < r ∧ right < r then do
      match ← a.find left name with
      | some column => return memo.passing? column
      | none => return (← a.find right name).bind memo.passing?
    else .error .dangling
termination_by r

/-- The handle of the base table of a name that can be reached from a relation.  Behind a projection
only the table that it passes on can. -/
def reach (a : Arena) (r : Nat) (name : String) : Except Stop (Option Nat) :=
  match a.nodes[r]? with
  | none => .error .dangling
  | some ⟨.table t, _⟩ => .ok (if t.name = name then some r else none)
  | some ⟨.selection operand _, _⟩ =>
    if operand < r then a.reach operand name else .error .dangling
  | some ⟨.projection _ none _, _⟩ => .ok none
  | some ⟨.projection _ (some whole) _, _⟩ => do
    match (← a.node whole).operator with
    | .table t => return if t.name = name then some whole else none
    | _ => return none
  | some ⟨.join _ left right _, _⟩ =>
    if left < r ∧ right < r then do
      match ← a.reach left name with
      | some t => return some t
      | none => a.reach right name
    else .error .dangling
termination_by r

/-- What a name is bound to: a column of the first operand that has one of the name. -/
def resolveName (a : Arena) (building name : String) : List Nat → Except Stop ColumnHandle
  | [] => .error (.failure (.unresolvedColumn name building))
  | operand :: rest => do
    match ← a.find operand name with
    | some column => return .derived column
    | none => a.resolveName building name rest

/-- Binds all names of an expression. -/
def resolve (a : Arena) (operands : List Nat) (building : String) (expr : Expr String) :
    Except Stop (Expr ColumnHandle) :=
  expr.bindNames (a.resolveName building · operands)

/-- The name of a bound expression, if it has one. -/
def nameOf (a : Arena) : Expr ColumnHandle → Except Stop (Option String)
  | .column (.declared t i) => do
    let c ← follow (← a.table t).columns[i]?
    return some c.name
  | .column (.derived column) => (a.column column).map (some ·.name)
  | .aliased _ label => .ok (some label)
  | .aggregate function _ => .ok (some function.name)
  | .literal _ => .ok none
  | .equal _ _ => .ok none

/-! ## Relations as trees -/

/-- The place of a column among the columns of the operands, counted from the left. -/
def place (a : Arena) (operands : List Nat) : ColumnHandle → Except Stop Nat
  | .declared _ _ => .error .dangling
  | .derived column => do
    let shown ← operands.mapM a.columns
    follow (shown.flatten.idxOf? column)

/-- A column as a tree shows it. -/
def outputColumn (a : Arena) (operands : List Nat) (column : Nat) : Except Stop OutputColumn := do
  let c ← a.column column
  return ⟨c.name, c.label, ← c.ancestor.bindNames (a.place operands)⟩

/-- A relation as a tree. -/
def relation (a : Arena) (r : Nat) : Except Stop Relation :=
  match a.nodes[r]? with
  | none => .error .dangling
  | some ⟨.table t, _⟩ => .ok (.table t)
  | some ⟨.selection operand condition, _⟩ =>
    if operand < r then do
      return .selection r (← a.relation operand) (← condition.bindNames (a.place [operand]))
    else .error .dangling
  | some ⟨.projection operand whole _, memo⟩ =>
    if operand < r then do
      return .projection r (← a.relation operand) (← whole.mapM a.table)
        (← memo.order.mapM (a.outputColumn [operand]))
    else .error .dangling
  | some ⟨.join kind left right condition, _⟩ =>
    if left < r ∧ right < r then do
      return .join r kind (← a.relation left) (← a.relation right)
        (← condition.bindNames (a.place [left, right]))
    else .error .dangling
termination_by r

/-- All relations as trees. -/
def algebra (a : Arena) : Except Stop Algebra :=
  ((List.range a.nodes.length).mapM a.relation).map Algebra.mk

end Arena

end RelationalAlgebra
