import RelationalAlgebra.Error

/-!
# Addresses of databases

A database is reached by a URL: `sqlite::memory:` is a new database without tables, and
`sqlite://db` the one in the file `db`.  What follows a question mark does not belong to the path.
-/

namespace RelationalAlgebra

/-- Where a database is. -/
inductive Database.Address where
  | memory
  | file (path : String)
  deriving DecidableEq, Repr

namespace Database.Address

/-- The scheme of a URL, and what follows its colon. -/
def splitScheme (url : List Char) : Option (List Char × List Char) :=
  match url.span (· != ':') with
  | (scheme, ':' :: rest) => some (scheme, rest)
  | _ => none

/-- A path without the two slashes that may stand before it. -/
def dropSlashes : List Char → List Char
  | '/' :: '/' :: path => path
  | path => path

/-- Whether the part behind the question mark asks for a database in memory. -/
def asksForMemory (parameters : List Char) : Bool :=
  (parameters.drop 1).splitOn '&' |>.contains "mode=memory".toList

/-- The address of what follows the scheme. -/
def ofPath (path : List Char) : Address :=
  let (path, parameters) := (dropSlashes path).span (· != '?')
  if path = ":memory:".toList ∨ asksForMemory parameters then .memory
  else .file (String.ofList path)

/-- The address of a URL.  Databases on servers are not reached. -/
def ofUrl (url : String) : Except Error Address :=
  match splitScheme url.toList with
  | none => .error (.connection "error with configuration: relative URL without a base")
  | some (scheme, path) =>
    let scheme := String.ofList scheme
    if scheme = "sqlite" then .ok (ofPath path)
    else if scheme = "postgres" ∨ scheme = "postgresql" then
      .error (.connection "pool timed out while waiting for an open connection")
    else
      .error (.connection
        ("error with configuration: no driver found for URL scheme \"" ++ scheme ++ "\""))

/-- The failure to open a file that is no database. -/
def unreachable : Error :=
  .connection "error returned from database: (code: 14) unable to open database file"

end Database.Address

end RelationalAlgebra
