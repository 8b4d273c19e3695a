import RelationalAlgebra.Relation.Basic
import RelationalAlgebra.Sql.Identifier

/-!
# Databases

The base tables that were created, and their rows.  A row has a value for each column of its
table.

* `Database.createStatement` is the text that creates a table, `Database.create` creates it.
* `Database.insert` stores a row; columns that are not named get null.

What is stored is what can be stored: an instant is stored as its text.
-/

namespace RelationalAlgebra

/-- The rows of the tables, by the name of the table. -/
structure Database where
  tables : List (String × List (List Value))

namespace Database

/-- No tables. -/
def empty : Database := ⟨[]⟩

/-- Whether a table was created. -/
def has (db : Database) (t : Table) : Bool := db.tables.any (·.1 == t.name)

/-- The rows of a table. -/
def rows (db : Database) (t : Table) : List (List Value) := (db.tables.lookup t.name).getD []

/-- Stores a row behind the other rows of a table. -/
def addRow (db : Database) (t : Table) (row : List Value) : Database :=
  ⟨db.tables.map fun (name, rows) => (name, if name == t.name then rows ++ [row] else rows)⟩

/-! ## Refused statements -/

/-- What is wrong with a statement. -/
inductive Refusal where
  /-- A list between parentheses is empty. -/
  | emptyList
  | missingTable (name : String)
  | existingTable (name : String)
  deriving DecidableEq, Repr

/-- The wording of a refusal. -/
def Refusal.message : Refusal → String
  | .emptyList => "near \")\": syntax error"
  | .missingTable name => "no such table: " ++ name
  | .existingTable name => "table " ++ name ++ " already exists"

/-- The failure of a refused statement. -/
def Refusal.error (r : Refusal) : Error :=
  .execution ("error returned from database: (code: 1) " ++ r.message)

/-! ## Creating tables -/

/-- The base table that a relation has to be. -/
def baseTable (r : Relation) : Except Error Table :=
  match r.table? with
  | some t => .ok t
  | none => .error (.unknownTable r.describe)

/-- The statement that creates a table. -/
def createStatement (r : Relation) : Except Error String := do
  let t ← baseTable r
  let columns := t.columns.map fun c => Sql.escape c.name ++ " " ++ c.type.sqlName
  return "CREATE TABLE " ++ Sql.escape t.name ++ " (" ++ String.intercalate ", " columns ++ ")"

/-- What keeps a table from being created. -/
def creationRefusal? (db : Database) (t : Table) : Option Refusal :=
  if t.columns.isEmpty then some .emptyList
  else if db.has t then some (.existingTable t.name)
  else none

/-- Creates a table without rows. -/
def create (db : Database) (r : Relation) : Except Error Database := do
  let t ← baseTable r
  match db.creationRefusal? t with
  | some refusal =>
    throw (.database ("create table " ++ t.name ++ ": " ++ refusal.error.message))
  | none => return ⟨db.tables ++ [(t.name, [])]⟩

/-- Creates several tables in order. -/
def createAll (db : Database) (relations : List Relation) : Except Error Database :=
  relations.foldlM create db

/-! ## Storing rows -/

/-- A value as it is stored. -/
def stored : Value → Value
  | .timestamp t => .text t.toText
  | value => value

/-- The places of the named columns with their values. -/
def placed (t : Table) : List (String × Value) → Except Error (List (Nat × Value))
  | [] => .ok []
  | (name, value) :: rest => do
    match t.position? name with
    | some i => return (i, stored value) :: (← placed t rest)
    | none => throw (.unresolvedColumn name ("insert into " ++ t.name))

/-- What keeps a row from being stored. -/
def insertionRefusal? (db : Database) (t : Table) (values : List (Nat × Value)) :
    Option Refusal :=
  if values.isEmpty then some .emptyList
  else if db.has t then none
  else some (.missingTable t.name)

/-- Stores a row given by named values.  Of values for one column the first is stored. -/
def insert (db : Database) (r : Relation) (fields : List (String × Value)) :
    Except Error Database := do
  let t ← baseTable r
  let values ← placed t fields
  match db.insertionRefusal? t values with
  | some refusal => throw refusal.error
  | none =>
    return db.addRow t ((List.range t.columns.length).map fun i => (values.lookup i).getD .null)

end Database

end RelationalAlgebra
