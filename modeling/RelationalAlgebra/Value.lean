import RelationalAlgebra.Error
import RelationalAlgebra.Instant.Rfc3339
import RelationalAlgebra.Json.Printer
import RelationalAlgebra.Text.Lowercase

/-!
# Values and the types of columns

A literal value names nothing: it stands for itself, and a query carries it as the value of a
placeholder.  `Value.display` is its spelling in a diagnostic, `Value.toJson` its plain JSON
form, in which an instant is a string; `Value.ofJson` reads plain JSON scalars back.

A column is declared with one of four types, each known by two names in any letter case
(`ColumnType.parse`).
-/

namespace RelationalAlgebra

/-! ## Values -/

/-- A literal value. -/
inductive Value where
  | null
  | integer (n : Int64)
  | text (s : String)
  | boolean (b : Bool)
  | timestamp (t : Instant)
  deriving DecidableEq, Repr

namespace Value

/-- Whether this is the null value. -/
def isNull : Value → Bool
  | .null => true
  | _ => false

/-- A text between single quotes, each quote inside it written twice. -/
def quoteText (s : String) : String :=
  "'" ++ String.ofList (s.toList.flatMap fun c => if c == '\'' then ['\'', '\''] else [c]) ++ "'"

/-- The spelling of a value in a diagnostic. -/
def display : Value → String
  | .null => "NULL"
  | .integer n => toString n.toInt
  | .text s => quoteText s
  | .boolean b => if b then "true" else "false"
  | .timestamp t => "'" ++ t.toText ++ "'"

/-- The plain JSON form. -/
def toJson : Value → Json
  | .null => .null
  | .integer n => .int n.toInt
  | .text s => .string s
  | .boolean b => .bool b
  | .timestamp t => .string t.toText

/-- The 64-bit integer a JSON number is, if it is one. -/
def word? (n : Int) : Option Int64 :=
  if Int64.minValue.toInt ≤ n ∧ n ≤ Int64.maxValue.toInt then some (Int64.ofInt n) else none

/-- The value a plain JSON scalar stands for.  A string is a text. -/
def ofJson : Json → Except Error Value
  | .null => .ok .null
  | .bool b => .ok (.boolean b)
  | .number (.integer n) =>
    match word? n with
    | some n => .ok (.integer n)
    | none => .error (.wire ("unsupported number: " ++ toString n))
  | .number (.fraction x) => .error (.wire ("unsupported number: " ++ String.ofList x.write))
  | .string s => .ok (.text s)
  | .array items => .error (.wire ("unsupported scalar: " ++ (Json.array items).compact))
  | .object fields => .error (.wire ("unsupported scalar: " ++ (Json.object fields).compact))

end Value

/-! ## Types of columns -/

/-- The declared type of a column. -/
inductive ColumnType where
  | integer
  | string
  | boolean
  | datetime
  deriving DecidableEq, Repr

namespace ColumnType

/-- The name of a type. -/
def name : ColumnType → String
  | .integer => "integer"
  | .string => "string"
  | .boolean => "boolean"
  | .datetime => "datetime"

/-- The name of a type in a `CREATE TABLE` statement. -/
def sqlName : ColumnType → String
  | .integer => "INTEGER"
  | .string => "TEXT"
  | .boolean => "BOOLEAN"
  | .datetime => "TIMESTAMP"

/-- The type of a name in lower case. -/
def ofName? (name : String) : Option ColumnType :=
  if name = "integer" ∨ name = "int" then some .integer
  else if name = "string" ∨ name = "text" then some .string
  else if name = "boolean" ∨ name = "bool" then some .boolean
  else if name = "datetime" ∨ name = "timestamp" then some .datetime
  else none

/-- The type of a name in any letter case. -/
def parse (text : String) : Except Error ColumnType :=
  match ofName? (Text.lowercase text) with
  | some type => .ok type
  | none => .error (.config ("unknown column type '" ++ Text.lowercase text ++ "'"))

end ColumnType

end RelationalAlgebra
