import RelationalAlgebra.Algebra

/-!
# The wire form

A relation travels as JSON in which every node says by its `type` what it is.  A column travels as
the table and the name of the declared column it reads, so that a relation can be rebuilt wherever
the same tables are declared; the names by which it was referred to are not kept.

* `Relation.toWire` writes.  Projections of single columns and aggregates have no wire form.
* `Algebra.ofWire` reads: it builds the relations of the tree anew, from the operands up.
-/

namespace RelationalAlgebra

open QualifiedName

/-! ## Writing -/

/-- The `type` of a join. -/
def JoinKind.wireName : JoinKind → String
  | .inner => "inner_join"
  | .leftOuter => "left_join"

/-- The wire form of a literal.  An instant says that it is one. -/
def Value.toWire : Value → Json
  | .timestamp t =>
    .ofFields
      [("type", .string "scalar"), ("kind", .string "timestamp"), ("value", .string t.toText)]
  | value => .ofFields [("type", .string "scalar"), ("value", value.toJson)]

namespace Relation

/-- The wire form of a declared column. -/
def physicalToWire (p : Physical) (c : Column) : Json :=
  .ofFields [("type", .string "column"), ("table", .string p.table.name), ("name", .string c.name)]

/-- The wire form of the declared column that a column of an operand reads. -/
def columnToWire (operands : List Relation) (i : Nat) : Except Error Json :=
  match (locate operands i).bind fun ref => ref.relation.physical? ref.place with
  | some p =>
    match p.column? with
    | some c => .ok (physicalToWire p c)
    | none => .error (.wire "only physical columns can be sent")
  | none => .error (.wire "only physical columns can be sent")

/-- The wire form of a condition over the columns of some operands. -/
def exprToWire (operands : List Relation) : Expr Nat → Except Error Json
  | .column i => columnToWire operands i
  | .literal value => .ok value.toWire
  | .aliased expr _ => exprToWire operands expr
  | .equal left right => do
    let left ← exprToWire operands left
    let right ← exprToWire operands right
    return .ofFields [("type", .string "eq"), ("left_operand", left), ("right_operand", right)]
  | .aggregate function _ =>
    .error (.wire ("aggregate " ++ function.sqlName ++ " has no wire form"))

/-- The wire form of a relation. -/
def toWire : Relation → Except Error Json
  | .table t => .ok (.ofFields [("type", .string "table"), ("name", .string t.name)])
  | .selection _ operand condition => do
    let wire ← operand.toWire
    let condition ← exprToWire [operand] condition
    return .ofFields [("type", .string "selection"), ("operand", wire), ("predicate", condition)]
  | .projection id operand none shown =>
    .error (.notWireRepresentable (Relation.projection id operand none shown).describe)
  | .projection _ operand (some t) _ => do
    let wire ← operand.toWire
    return .ofFields [("type", .string "table_projection"), ("operand", wire),
      ("projected_table", .string t.name)]
  | .join _ kind left right condition => do
    let leftWire ← left.toWire
    let rightWire ← right.toWire
    let condition ← exprToWire [left, right] condition
    return .ofFields [("type", .string kind.wireName), ("left_operand", leftWire),
      ("right_operand", rightWire), ("predicate", condition)]

end Relation

/-! ## Reading -/

namespace Wire

/-- A field that has to be there. -/
def field (j : Json) (name : String) : Except Error Json :=
  match j.get? name with
  | some value => .ok value
  | none => .error (.wire ("missing field '" ++ name ++ "'"))

/-- A field that has to be a string. -/
def stringField (j : Json) (name : String) : Except Error String := do
  match (← field j name).string? with
  | some s => return s
  | none => throw (.wire ("field '" ++ name ++ "' is not a string"))

/-- The literal of a wire form. -/
def scalar (j : Json) : Except Error Value :=
  match (j.get? "kind").bind Json.string? with
  | none => do Value.ofJson (← field j "value")
  | some kind =>
    if kind = "timestamp" then do
      let text ← stringField j "value"
      match Instant.read text with
      | .ok t => return .timestamp t
      | .error fault =>
        throw (.wire ("bad timestamp '" ++ text ++ "': " ++ fault.message))
    else .error (.wire ("unknown scalar kind '" ++ kind ++ "'"))

/-- The condition of a wire form that is nested no deeper than `depth`.  Columns are referred to by
their qualified names. -/
def exprWithin : (depth : Nat) → Json → Except Error (Expr String)
  | 0, _ => .error (.wire "nested too deeply")
  | depth + 1, j => do
    let type ← stringField j "type"
    if type = "eq" then
      let left ← exprWithin depth (← field j "left_operand")
      let right ← exprWithin depth (← field j "right_operand")
      return .equal left right
    else if type = "column" then
      let table ← stringField j "table"
      let name ← stringField j "name"
      return .column (qualify table name)
    else if type = "scalar" then
      return .literal (← scalar j)
    else throw (.wire ("unknown expression type '" ++ type ++ "'"))

/-- The condition of a wire form. -/
def expr (j : Json) : Except Error (Expr String) := exprWithin j.depth j

end Wire

namespace Algebra

open Wire

/-- The base table of a name that a wire form mentions. -/
def wireTable (name : String) : Build Table := do
  match (← get).table? name with
  | some t => return t
  | none => throw (.wire ("unknown table '" ++ name ++ "'"))

/-- Builds the relation of a wire form that is nested no deeper than `depth`. -/
def ofWireWithin : (depth : Nat) → Json → Build Relation
  | 0, _ => throw (.wire "nested too deeply")
  | depth + 1, j => do
    let type ← stringField j "type"
    if type = "table" then
      return .table (← wireTable (← stringField j "name"))
    else if type = "selection" then
      let operand ← ofWireWithin depth (← field j "operand")
      let condition ← expr (← field j "predicate")
      select operand (.expr condition)
    else if type = "inner_join" ∨ type = "left_join" then
      let left ← ofWireWithin depth (← field j "left_operand")
      let right ← ofWireWithin depth (← field j "right_operand")
      let condition ← expr (← field j "predicate")
      join (if type = "inner_join" then .inner else .leftOuter) left right (.expr condition)
    else if type = "table_projection" then
      let operand ← ofWireWithin depth (← field j "operand")
      let t ← wireTable (← stringField j "projected_table")
      project operand [.relation (.table t)]
    else throw (.wire ("unknown relation type '" ++ type ++ "'"))

/-- Builds the relation of a wire form. -/
def ofWire (j : Json) : Build Relation := ofWireWithin j.depth j

end Algebra

end RelationalAlgebra
