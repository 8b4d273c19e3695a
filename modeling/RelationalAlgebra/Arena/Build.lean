import RelationalAlgebra.Arena.Basic
import RelationalAlgebra.Schema
import RelationalAlgebra.Wire

/-!
# Building in an arena

`Work` is a computation on an arena that may stop.  What it has put into the arena until then stays
there: a projection that fails at its third argument leaves the columns of the first two behind, and a
wire form that cannot be read to the end leaves the relations below.  Nothing refers to these, but the
handles of what is built later are others than they would have been.

* `derive` shows an expression as a column of a relation that is being built, once.
* `createTable`, `select`, `project`, `join` and `joinInferred` build one relation.
* `ofWire` builds the relations of a wire form, and `link` goes on from a relation in a chain.
-/

namespace RelationalAlgebra

namespace Arena

open Wire

/-- A computation on an arena, which keeps what was done until it stops. -/
abbrev Work (α : Type) := ExceptT Stop (StateM Arena) α

/-- Asks the arena. -/
def look {α : Type} (question : Arena → Except Stop α) : Work α :=
  ExceptT.mk fun a => (question a, a)

/-- The outcome of a computation that needs no arena. -/
def check {α : Type} (outcome : Except Error α) : Work α :=
  ExceptT.mk fun a => (outcome.mapError .failure, a)

/-- Stops for a reason. -/
def fail {α : Type} (cause : Error) : Work α := throw (.failure cause)

/-! ## Columns -/

/-- Puts a column into the arena. -/
def addDerived (column : Derived) : Work Nat :=
  ExceptT.mk fun a => (.ok a.derived.length, { a with derived := a.derived ++ [column] })

/-- Shows a bound expression as a column of a relation, unless it is shown already.  An alias around it
is the column's name; else it has the name that is at hand, or its own. -/
def derive (owner : Nat) (memo : Memo) (bound : Expr ColumnHandle) (hint : Option String) :
    Work (Nat × Memo) := do
  let (ancestor, label) := bound.stripAlias
  match memo.byAncestor.lookup ancestor with
  | some column => return (column, memo)
  | none =>
    let name ←
      match label <|> hint with
      | some name => pure (some name)
      | none => look (·.nameOf ancestor)
    match name with
    | some name =>
      let column ← addDerived ⟨owner, ancestor, label, name⟩
      return (column, memo.insert column ancestor name)
    | none => fail (.invalidProjection "expressions without a column name need an alias")

/-- Shows the columns of some relations as they are. -/
def passOn (owner : Nat) (operands : List Nat) : Work Memo := do
  let columns ← operands.mapM fun operand => look (·.columns operand)
  columns.flatten.foldlM (fun memo column => do
    return (← derive owner memo (.column (.derived column)) none).2) .empty

/-! ## Relations -/

/-- The handle of the next relation. -/
def next : Work Nat := look fun a => .ok a.nodes.length

/-- Puts a relation into the arena. -/
def push (operator : Operator) (memo : Memo) : Work Nat :=
  ExceptT.mk fun a => (.ok a.nodes.length, { a with nodes := a.nodes ++ [⟨operator, memo⟩] })

/-- Enters a table under its name. -/
def enter (name : String) (handle : Nat) : Work Unit :=
  ExceptT.mk fun a => (.ok (), { a with tablesByName := (name, handle) :: a.tablesByName })

/-- Declares a table with its columns in order. -/
def createTable (name : String) (columns : List (String × ColumnType)) : Work Nat := do
  if (← look fun a => .ok (a.tableNamed? name)).isSome then
    fail (.duplicateTable name)
  let owner ← next
  let t := Table.declare owner name columns
  let memo ← t.columns.zipIdx.foldlM (fun memo (c, i) => do
    return (← derive owner memo (.column (.declared owner i)) (some c.name)).2) .empty
  enter name owner
  push (.table t) memo

/-- Keeps the rows of the operand for which the condition holds. -/
def select (operand : Nat) (condition : Predicate) : Work Nat := do
  let r ← look (·.relation operand)
  let equality ← check condition.equality
  let bound ← look (·.resolve [operand] ("selection on " ++ r.describe) equality)
  let memo ← passOn (← next) [operand]
  push (.selection operand bound) memo

/-- What a projection is asked to show, where relations are referred to by `ρ`. -/
inductive Arg (ρ : Type) where
  | relation (r : ρ)
  | record (table : String)
  | name (name : String)
  | expr (expr : Expr String)
  deriving DecidableEq, Repr

/-- The argument with the relation it refers to. -/
def Arg.read {ρ ε : Type} (read : ρ → Except ε Relation) :
    Arg ρ → Except ε Algebra.ProjectArg
  | .relation r => (read r).map .relation
  | .record table => .ok (.record table)
  | .name n => .ok (.name n)
  | .expr e => .ok (.expr e)

/-- The handle of the table that is asked for: a single argument may name one that the operand can
reach. -/
def projectedTable? (a : Arena) (operand : Nat) :
    List Algebra.ProjectArg → Except Stop (Option Nat)
  | [arg] =>
    match arg.tableName? with
    | some name => a.reach operand name
    | none => .ok none
  | _ => .ok none

/-- The columns of a projection of one whole table. -/
def deriveWhole (owner operand : Nat) (building : String) (t : Table) : Work Memo :=
  t.qualifiedColumns.foldlM (fun memo expr => do
    let bound ← look (·.resolve [operand] building expr)
    return (← derive owner memo bound none).2) .empty

/-- Shows one column of a projection, under a name that no other column has. -/
def deriveNamed (owner operand : Nat) (building : String) (memo : Memo) (shown : List Nat)
    (arg : Algebra.ProjectArg) : Work (Memo × List Nat) := do
  let expr ← check arg.column
  let bound ← look (·.resolve [operand] building expr)
  let (column, memo) ← derive owner memo bound none
  let name := (← look (·.column column)).name
  let others ← look fun a => (shown.filter (· != column)).mapM a.column
  if others.any (·.name == name) then
    fail (.invalidProjection (building ++ " names '" ++ name ++ "' twice; alias one of them"))
  return (memo, if column ∈ shown then shown else shown ++ [column])

/-- The columns of a projection of single columns. -/
def deriveShown (owner operand : Nat) (building : String) (args : List Algebra.ProjectArg) :
    Work (Memo × List Nat) :=
  args.foldlM (fun (memo, shown) arg => deriveNamed owner operand building memo shown arg)
    (.empty, [])

/-- Shows a whole table that the operand can reach, if that is what the only argument asks for,
and single columns otherwise. -/
def project (operand : Nat) (args : List (Arg Nat)) : Work Nat := do
  let args ← look fun a => args.mapM (·.read a.relation)
  let r ← look (·.relation operand)
  let building := "projection of " ++ r.describe
  if args.isEmpty then
    fail (.invalidProjection (building ++ " has no columns"))
  let owner ← next
  match ← look (·.projectedTable? operand args) with
  | some whole =>
    let t ← look (·.table whole)
    let memo ← deriveWhole owner operand building t
    push (.projection operand (some whole) []) memo
  | none =>
    let (memo, shown) ← deriveShown owner operand building args
    push (.projection operand none shown) memo

/-- Pairs the rows of two relations.  The right one must not stand in the `FROM` clause of the
left one. -/
def join (kind : JoinKind) (left right : Nat) (condition : Predicate) : Work Nat := do
  let l ← look (·.relation left)
  let r ← look (·.relation right)
  if l.joinUnits.any (·.id == right) then
    fail (.repeatedJoinOperand r.describe)
  let equality ← check condition.equality
  let subject := "join of " ++ l.describe ++ " and " ++ r.describe
  let bound ← look (·.resolve [left, right] subject equality)
  let memo ← passOn (← next) [left, right]
  push (.join kind left right bound) memo

/-- Joins two relations by a key of one that the other refers to. -/
def joinInferred (kind : JoinKind) (left right : Nat) : Work Nat := do
  let l ← look (·.relation left)
  let r ← look (·.relation right)
  let condition ← check (l.inferCondition r)
  join kind left right condition

/-! ## Several relations at once -/

/-- The handle of the base table of a name that a wire form mentions. -/
def wireTable (name : String) : Work Nat := do
  match ← look fun a => .ok (a.tableNamed? name) with
  | some t => return t
  | none => fail (.wire ("unknown table '" ++ name ++ "'"))

/-- Builds the relation of a wire form that is nested no deeper than `depth`. -/
def ofWireWithin : (depth : Nat) → Json → Work Nat
  | 0, _ => fail (.wire "nested too deeply")
  | depth + 1, j => do
    let type ← check (stringField j "type")
    if type = "table" then
      wireTable (← check (stringField j "name"))
    else if type = "selection" then
      let operand ← ofWireWithin depth (← check (field j "operand"))
      let condition ← check (do expr (← field j "predicate"))
      select operand (.expr condition)
    else if type = "inner_join" ∨ type = "left_join" then
      let left ← ofWireWithin depth (← check (field j "left_operand"))
      let right ← ofWireWithin depth (← check (field j "right_operand"))
      let condition ← check (do expr (← field j "predicate"))
      join (if type = "inner_join" then .inner else .leftOuter) left right (.expr condition)
    else if type = "table_projection" then
      let operand ← ofWireWithin depth (← check (field j "operand"))
      let t ← wireTable (← check (stringField j "projected_table"))
      project operand [.relation t]
    else fail (.wire ("unknown relation type '" ++ type ++ "'"))

/-- Builds the relation of a wire form. -/
def ofWire (j : Json) : Work Nat := ofWireWithin j.depth j

/-- A link of a chain, where relations are referred to by `ρ`. -/
inductive Link (ρ : Type) where
  | filter (condition : Predicate)
  | find (id : Value)
  | project (args : List (Arg ρ))
  | join (right : ρ) (condition : Predicate)
  | leftJoin (right : ρ) (condition : Predicate)
  | joinInferred (right : ρ)

/-- Goes on from a relation. -/
def link (operand : Nat) : Link Nat → Work Nat
  | .filter condition => select operand condition
  | .find id => select operand (Predicate.hasId id)
  | .project args => project operand args
  | .join right condition => join .inner operand right condition
  | .leftJoin right condition => join .leftOuter operand right condition
  | .joinInferred right => joinInferred .inner operand right

/-- Goes on from a relation by one link after the other. -/
def chain (operand : Nat) (links : List (Link Nat)) : Work Nat := links.foldlM link operand

/-- Declares the tables of a schema, up to the first that cannot be declared. -/
def declare (schema : Schema) : Work (List Nat) :=
  schema.tables.mapM fun t => do
    let columns ← check (t.columns.mapM ColumnSchema.typed)
    createTable t.name columns

end Arena

end RelationalAlgebra
