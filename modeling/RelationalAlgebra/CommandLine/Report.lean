import RelationalAlgebra.Json.Printer
import RelationalAlgebra.Sql.Compile
import RelationalAlgebra.Tuple

/-!
# What is shown

* `Report.statement` shows a compiled relation: the text of the statement and the placeholders.
* `Report.grid` shows tuples as a table with a column for every name, in the order of the first
  occurrence.
* `Report.json` shows tuples as JSON.

Columns are as wide as their longest text is in bytes.  A shorter text is filled up with blanks,
one for every character that is missing.
-/

namespace RelationalAlgebra.CommandLine.Report

/-- Lines, each with its end. -/
def ofLines (lines : List String) : String := String.join (lines.map (· ++ "\n"))

/-! ## Statements -/

/-- The line of a placeholder. -/
def placeholderLine (name : String) (value : Value) : String :=
  "  :" ++ name ++ " = " ++ value.display

/-- The lines of the placeholders, if there are any. -/
def placeholderLines : List (String × Value) → List String
  | [] => []
  | entries => "" :: "Placeholders:" :: entries.map fun (name, value) => placeholderLine name value

/-- A compiled relation. -/
def statement (c : Sql.Compiled) : String :=
  ofLines ("Generated SQL:" :: c.sql :: placeholderLines c.placeholders.entries)

/-! ## Tables -/

/-- The texts of a row, by the names of their columns. -/
abbrev Line := List (String × String)

/-- The texts of a tuple. -/
def lineOf (t : Tuple) : Line := t.cells.map fun (name, value) => (name, value.display)

/-- The names of the columns in the order of their first occurrence. -/
def headers (lines : List Line) : List String :=
  lines.flatten.foldl (fun done (name, _) => if done.contains name then done else done ++ [name]) []

/-- The text of a line in a column. -/
def cell (line : Line) (header : String) : String := (line.lookup header).getD "NULL"

/-- The width of a column. -/
def columnWidth (lines : List Line) (header : String) : Nat :=
  (lines.map fun line => (cell line header).utf8ByteSize).foldl max header.utf8ByteSize

/-- A text filled up with blanks. -/
def fill (width : Nat) (text : String) : String :=
  text ++ String.ofList (List.replicate (width - text.length) ' ')

/-- Texts side by side, each as wide as its column. -/
def beside (columns : List (String × Nat)) (text : String → String) : String :=
  String.intercalate " | " (columns.map fun (header, width) => fill width (text header))

/-- The rule under the names. -/
def rule (columns : List (String × Nat)) : String :=
  String.intercalate "-+-" (columns.map fun (_, width) => String.ofList (List.replicate width '-'))

/-- Tuples as a table. -/
def grid (tuples : List Tuple) : String :=
  if tuples.isEmpty then ofLines ["(0 rows)"]
  else
    let lines := tuples.map lineOf
    let columns := (headers lines).map fun header => (header, columnWidth lines header)
    ofLines (beside columns (fun header => header) :: rule columns ::
      lines.map (fun line => beside columns (cell line)) ++
      ["", "(" ++ toString tuples.length ++ " rows)"])

/-! ## JSON -/

/-- A JSON value. -/
def value (j : Json) : String := ofLines [j.pretty]

/-- Tuples as JSON. -/
def json (tuples : List Tuple) : String := value (.array (tuples.map (·.toJson)))

end RelationalAlgebra.CommandLine.Report
