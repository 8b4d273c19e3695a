/-!
# What can go wrong

Every operation that can fail names its cause by a value of `Error`.  The wording is in one
place, `Error.message`.
-/

namespace RelationalAlgebra

/-- The causes of failure. -/
inductive Error where
  /-- No operand of the relation being built has a column of this name. -/
  | unresolvedColumn (name building : String)
  /-- A condition is made of this many equalities and not of one. -/
  | unsupportedPredicate (entries : Nat)
  /-- A query already has a `FROM` clause. -/
  | sourceAssigned
  /-- A relation of this description cannot be sent. -/
  | notWireRepresentable (description : String)
  | unsupportedJoinInference (reason : String)
  | invalidProjection (reason : String)
  /-- A relation of this description would be joined to itself. -/
  | repeatedJoinOperand (description : String)
  | duplicateTable (name : String)
  | unknownTable (name : String)
  /-- A subquery does not show the column to the query around it. -/
  | columnNotExposed (name : String)
  /-- A received relation is malformed. -/
  | wire (reason : String)
  | database (reason : String)
  | connection (reason : String)
  | execution (reason : String)
  | config (reason : String)
  | io (reason : String)
  | json (reason : String)
  deriving DecidableEq, Repr

/-- The wording of a failure. -/
def Error.message : Error → String
  | .unresolvedColumn name building =>
    "Unresolved column '" ++ name ++ "' while building " ++ building
  | .unsupportedPredicate entries =>
    "Unsupported predicate shape: expected exactly one equality, got " ++ toString entries
  | .sourceAssigned => "A table ref has already been assigned"
  | .notWireRepresentable description =>
    "Cannot wire-represent " ++ description ++ ": only table projections are supported"
  | .unsupportedJoinInference reason => "Cannot infer join columns: " ++ reason
  | .invalidProjection reason => "Invalid projection: " ++ reason
  | .repeatedJoinOperand description =>
    description ++ " already appears in this join; wrap one side in a projection or selection"
  | .duplicateTable name => "Table '" ++ name ++ "' is already defined"
  | .unknownTable name => "Unknown table: '" ++ name ++ "'"
  | .columnNotExposed name => "Column '" ++ name ++ "' is not exposed by its subquery"
  | .wire reason => "Invalid wire representation: " ++ reason
  | .database reason => "Database error: " ++ reason
  | .connection reason => "Connection error: " ++ reason
  | .execution reason => "Execution error: " ++ reason
  | .config reason => "Configuration error: " ++ reason
  | .io reason => "IO error: " ++ reason
  | .json reason => "JSON error: " ++ reason

end RelationalAlgebra
