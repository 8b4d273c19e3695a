import RelationalAlgebra.Expr.Basic

/-!
# Tagged JSON forms

A literal, an aggregate function or an expression as JSON that says of each node what it is:
`{"Integer": 5}`, `{"Eq": [{"Column": "id"}, {"Literal": {"Integer": 1}}]}`.  A node is an object
with one field, whose name is the tag.  A tag without content may also stand alone as a string,
and a node with named parts may give them as a list.
-/

namespace RelationalAlgebra

/-- A node with one field. -/
def Json.tagged (tag : String) (content : Json) : Json := .object [(tag, content)]

/-- The tag and the content of a node. -/
def Json.node? : Json → Option (String × Json)
  | .object [(tag, content)] => some (tag, content)
  | .string tag => some (tag, .null)
  | _ => none

/-- The content of a node that has one. -/
def Json.tagged? : Json → Option (String × Json)
  | .object [(tag, content)] => some (tag, content)
  | _ => none

/-- Two named parts, given by name or in order. -/
def Json.parts? (first second : String) : Json → Option (Json × Json)
  | .object fields => do return (← fields.lookup first, ← fields.lookup second)
  | .array [a, b] => some (a, b)
  | _ => none

/-! ## Values -/

namespace Value

/-- The tagged form of a value. -/
def toTagged : Value → Json
  | .null => .string "Null"
  | .integer n => .tagged "Integer" (.int n.toInt)
  | .text s => .tagged "Text" (.string s)
  | .boolean b => .tagged "Boolean" (.bool b)
  | .timestamp t => .tagged "Timestamp" (.string t.toZulu)

/-- The value of a node with content. -/
def ofContent? (tag : String) (content : Json) : Option Value :=
  match content with
  | .number (.integer n) => if tag = "Integer" then (word? n).map .integer else none
  | .string s =>
    if tag = "Text" then some (.text s)
    else if tag = "Timestamp" then (Instant.readLenient? s).map .timestamp
    else none
  | .bool b => if tag = "Boolean" then some (.boolean b) else none
  | .null => if tag = "Null" then some .null else none
  | _ => none

/-- The value of a tagged form. -/
def ofTagged? (j : Json) : Option Value := do
  let (tag, content) ← j.node?
  ofContent? tag content

end Value

/-! ## Aggregate functions -/

namespace Aggregate

/-- The tag of a function. -/
def tag : Aggregate → String
  | .count => "Count"
  | .sum => "Sum"
  | .avg => "Avg"
  | .min => "Min"
  | .max => "Max"

/-- The function of a tag. -/
def ofTag? (tag : String) : Option Aggregate :=
  [Aggregate.count, .sum, .avg, .min, .max].find? fun f => f.tag == tag

/-- The function of a tagged form. -/
def ofTagged? (j : Json) : Option Aggregate :=
  match j.node? with
  | some (tag, .null) => ofTag? tag
  | _ => none

end Aggregate

/-! ## Expressions -/

namespace Expr

/-- The tagged form of an expression. -/
def toTagged : Expr String → Json
  | .column name => .tagged "Column" (.string name)
  | .literal value => .tagged "Literal" value.toTagged
  | .aliased expr label =>
    .tagged "Aliased" (.ofFields [("expr", expr.toTagged), ("alias", .string label)])
  | .equal left right => .tagged "Eq" (.array [left.toTagged, right.toTagged])
  | .aggregate function argument =>
    .tagged "Aggregate"
      (.ofFields [("func", .string function.tag), ("arg", argument.toTagged)])

/-- The expression of a tagged form, nested no deeper than `depth`. -/
def ofTaggedWithin? : (depth : Nat) → Json → Option (Expr String)
  | 0, _ => none
  | depth + 1, j => do
    let (tag, content) ← j.tagged?
    if tag = "Column" then (content.string?).map .column
    else if tag = "Literal" then (Value.ofTagged? content).map .literal
    else if tag = "Aliased" then
      let (expr, label) ← content.parts? "expr" "alias"
      return .aliased (← ofTaggedWithin? depth expr) (← label.string?)
    else if tag = "Eq" then
      match content with
      | .array [left, right] =>
        return .equal (← ofTaggedWithin? depth left) (← ofTaggedWithin? depth right)
      | _ => none
    else if tag = "Aggregate" then
      let (function, argument) ← content.parts? "func" "arg"
      return .aggregate (← Aggregate.ofTagged? function) (← ofTaggedWithin? depth argument)
    else none

/-- The expression of a tagged form. -/
def ofTagged? (j : Json) : Option (Expr String) := ofTaggedWithin? j.depth j

end Expr

end RelationalAlgebra
