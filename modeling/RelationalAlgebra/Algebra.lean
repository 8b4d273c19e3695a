import RelationalAlgebra.Relation.KeyInference

/-!
# Building relations

An `Algebra` holds the relations built so far, in the order they were built; the place of a
relation is its identity.  `Build` is a computation that may add relations and may fail, and a
failed one adds nothing.

All names are bound when a relation is built: against the operands, from the left, and the first
operand that has a column of the name wins.  So a relation never holds a name that means nothing.

* `Algebra.createTable` declares a base table.
* `Algebra.select`, `Algebra.project` and `Algebra.join` derive a relation.
* `Algebra.joinInferred` joins by a foreign key, and `Algebra.selectId` picks a row by its key.
-/

namespace RelationalAlgebra

open QualifiedName

/-- The relations built so far; the place of each is its identity. -/
structure Algebra where
  relations : List Relation
  deriving DecidableEq, Repr

/-- A computation that may build relations. -/
abbrev Build (α : Type) := StateT Algebra (Except Error) α

namespace Algebra

/-- No relations. -/
def empty : Algebra := ⟨[]⟩

/-- The base table of a name. -/
def table? (a : Algebra) (name : String) : Option Table :=
  a.relations.findSome? fun r => r.table?.filter (·.name == name)

/-- Builds a relation that knows its identity. -/
def push (make : Nat → Relation) : Build Relation := do
  let a ← get
  let r := make a.relations.length
  set (Algebra.mk (a.relations ++ [r]))
  return r

/-! ## Binding names -/

/-- The place of the column a name stands for among the columns of the operands. -/
def bindColumn (operands : List Relation) (building name : String) : Except Error Nat :=
  match Relation.findIn? operands name with
  | some i => .ok i
  | none => .error (.unresolvedColumn name building)

/-- Binds all names of an expression. -/
def bind (operands : List Relation) (building : String) (expr : Expr String) :
    Except Error (Expr Nat) :=
  expr.bindNames (bindColumn operands building)

/-! ## Tables -/

/-- Declares a table with its columns in order. -/
def createTable (name : String) (columns : List (String × ColumnType)) : Build Table := do
  if ((← get).table? name).isSome then
    throw (.duplicateTable name)
  let t := Table.declare (← get).relations.length name columns
  let _ ← push fun _ => .table t
  return t

/-! ## Selections -/

/-- Keeps the rows of the operand for which the condition holds. -/
def select (operand : Relation) (condition : Predicate) : Build Relation := do
  let equality ← condition.equality
  let bound ← bind [operand] ("selection on " ++ operand.describe) equality
  push fun id => .selection id operand bound

/-- Keeps the rows whose column `id` has the value. -/
def selectId (operand : Relation) (id : Value) : Build Relation :=
  select operand (Predicate.hasId id)

/-! ## Projections -/

/-- What a projection is asked to show. -/
inductive ProjectArg where
  /-- A relation, which should be a base table. -/
  | relation (r : Relation)
  /-- The table that a type of records is kept in. -/
  | record (table : String)
  /-- A table, if it is the only argument and can be reached; else a column. -/
  | name (name : String)
  | expr (expr : Expr String)
  deriving DecidableEq, Repr

/-- The name of the table an argument may ask for. -/
def ProjectArg.tableName? : ProjectArg → Option String
  | .relation r => r.table?.map (·.name)
  | .record table => some table
  | .name n => if isQualified n then none else some n
  | .expr _ => none

/-- The column an argument asks for. -/
def ProjectArg.column : ProjectArg → Except Error (Expr String)
  | .name n => .ok (.column n)
  | .expr e => .ok e
  | .relation _ => .error (.invalidProjection "a table can only be projected on its own")
  | .record _ => .error (.invalidProjection "a table can only be projected on its own")

/-- The table that is asked for: a single argument may name one that the operand can reach. -/
def projectedTable? (operand : Relation) : List ProjectArg → Option Table
  | [arg] => arg.tableName?.bind operand.tableNamed?
  | _ => none

/-- The name of a bound expression, if it has one. -/
def nameOf? (operand : Relation) : Expr Nat → Option String
  | .column i => operand.columns[i]?.map (·.name)
  | .aliased _ label => some label
  | .aggregate function _ => some function.name
  | .literal _ => none
  | .equal _ _ => none

/-- The column that shows an expression of the operand. -/
def outputColumn (operand : Relation) (expr : Expr Nat) : Except Error OutputColumn :=
  let (source, label) := expr.stripAlias
  match label <|> nameOf? operand source with
  | some name => .ok ⟨name, label, source⟩
  | none => .error (.invalidProjection "expressions without a column name need an alias")

/-- Shows an expression, unless it is shown already. -/
def showOnce (operand : Relation) (shown : List OutputColumn) (expr : Expr Nat) :
    Except Error (List OutputColumn) :=
  if shown.any (·.source == expr.stripAlias.1) then .ok shown
  else (outputColumn operand expr).map fun column => shown ++ [column]

/-- Shows an expression, unless it is shown already, under a name that no other column has. -/
def showNamed (operand : Relation) (building : String) (shown : List OutputColumn)
    (expr : Expr Nat) : Except Error (List OutputColumn) :=
  if shown.any (·.source == expr.stripAlias.1) then .ok shown
  else do
    let column ← outputColumn operand expr
    if shown.any (·.name == column.name) then
      throw (.invalidProjection
        (building ++ " names '" ++ column.name ++ "' twice; alias one of them"))
    return shown ++ [column]

/-- The columns of a projection of one whole table. -/
def wholeColumns (operand : Relation) (building : String) (t : Table) :
    Except Error (List OutputColumn) :=
  t.qualifiedColumns.foldlM (fun shown expr => do
    showOnce operand shown (← bind [operand] building expr)) []

/-- The columns of a projection of single columns. -/
def shownColumns (operand : Relation) (building : String) (args : List ProjectArg) :
    Except Error (List OutputColumn) :=
  args.foldlM (fun shown arg => do
    showNamed operand building shown (← bind [operand] building (← arg.column))) []

/-- Shows a whole table that the operand can reach, if that is what the only argument asks for,
and single columns otherwise. -/
def project (operand : Relation) (args : List ProjectArg) : Build Relation := do
  let building := "projection of " ++ operand.describe
  if args.isEmpty then
    throw (.invalidProjection (building ++ " has no columns"))
  match projectedTable? operand args with
  | some t =>
    let shown ← wholeColumns operand building t
    push fun id => .projection id operand (some t) shown
  | none =>
    let shown ← shownColumns operand building args
    push fun id => .projection id operand none shown

/-! ## Joins -/

/-- Pairs the rows of two relations.  The right one must not stand in the `FROM` clause of the
left one. -/
def join (kind : JoinKind) (left right : Relation) (condition : Predicate) : Build Relation := do
  if left.joinUnits.any (·.id == right.id) then
    throw (.repeatedJoinOperand right.describe)
  let equality ← condition.equality
  let subject := "join of " ++ left.describe ++ " and " ++ right.describe
  let bound ← bind [left, right] subject equality
  push fun id => .join id kind left right bound

/-- Joins two relations by a key of one that the other refers to. -/
def joinInferred (kind : JoinKind) (left right : Relation) : Build Relation := do
  let condition ← Relation.inferCondition left right
  join kind left right condition

end Algebra

end RelationalAlgebra
