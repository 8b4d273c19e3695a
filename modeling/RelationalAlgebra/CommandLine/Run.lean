import RelationalAlgebra.CommandLine.Arguments
import RelationalAlgebra.CommandLine.Interaction
import RelationalAlgebra.CommandLine.Report
import RelationalAlgebra.Config
import RelationalAlgebra.Database.Address
import RelationalAlgebra.Database.Fetch
import RelationalAlgebra.Json.Reader
import RelationalAlgebra.Schema
import RelationalAlgebra.Text.Whitespace
import RelationalAlgebra.Wire

/-!
# Carrying out a command line

A run reads the configuration, the schema and the query, in this order, and then does what the
command asks for.  It ends at the first failure; what was printed before stays printed.

`run` is the whole program as an interaction.
-/

namespace RelationalAlgebra.CommandLine

/-! ## Outcomes -/

/-- How a run ends. -/
inductive Ending where
  | success
  | failure (reason : String)
  | misuse (fault : Misuse)
  deriving DecidableEq, Repr

/-- The exit code. -/
def Ending.code : Ending → Nat
  | .success => 0
  | .failure _ => 1
  | .misuse _ => 2

/-- What is said about the ending, if anything. -/
def Ending.complaint? : Ending → Option String
  | .success => none
  | .failure reason => some ("Error: " ++ reason)
  | .misuse fault => some ("error: " ++ fault.message)

/-- What a run leaves behind. -/
structure Outcome where
  output : String
  ending : Ending
  deriving DecidableEq, Repr

/-- What a program is told of its surroundings. -/
structure Surroundings where
  /-- Where the configurations of the user are. -/
  configDirectory : Option String
  databaseUrl : Option String

/-! ## Steps -/

/-- A step of a run: it interacts, prints, and may fail with a reason. -/
abbrev Step (α : Type) := ExceptT String (StateT String Interaction) α

/-- Prints a text. -/
def print (text : String) : Step Unit := modify (· ++ text)

/-- Reads a file. -/
def readFile (path : String) : Step (Except FileFault String) :=
  fun printed => .readFile path fun answer => .done (.ok answer, printed)

/-- Opens the database in a file. -/
def openDatabase (path : String) : Step (Option Database) :=
  fun printed => .openDatabase path fun answer => .done (.ok answer, printed)

/-- A computation that may fail, as a step. -/
def ofExcept {α : Type} : Except Error α → Step α
  | .ok a => pure a
  | .error e => throw e.message

/-- The failure to read a file that holds settings. -/
def unreadable (what path : String) (fault : FileFault) : Error :=
  .config ("Failed to read " ++ what ++ path ++ ": " ++ fault.message)

/-! ## Reading -/

/-- Whether a fault says that there is nothing. -/
def FileFault.isAbsence : FileFault → Bool
  | .missing => true
  | .notDirectory => true
  | _ => false

/-- The configuration in a file. -/
def configOf (path : String) (answer : Except FileFault String) : Step Config :=
  match answer with
  | .ok text => ofExcept (Config.parse text)
  | .error fault => ofExcept (.error (unreadable "" path fault))

/-- The configuration in the first file that is there. -/
def firstConfig : List String → Step Config
  | [] => return .default
  | path :: rest => do
    let answer ← readFile path
    match answer with
    | .error fault => if fault.isAbsence then firstConfig rest else configOf path answer
    | .ok _ => configOf path answer

/-- Where configurations are looked for. -/
def configPaths (s : Surroundings) : List String :=
  "keep.toml" :: (s.configDirectory.map (· ++ "/keep/config.toml")).toList

/-- The configuration of a run. -/
def loadConfig (s : Surroundings) (explicit : Option String) : Step Config := do
  match explicit with
  | some path => configOf path (← readFile path)
  | none => firstConfig (configPaths s)

/-- The tables of a schema file. -/
def loadSchema (path : String) : Step Algebra := do
  match ← readFile path with
  | .ok text => ofExcept (Schema.parse text >>= Schema.algebra)
  | .error fault => ofExcept (.error (unreadable "schema " path fault))

/-- Whether a query is given as it is, and not by the path of a file. -/
def isInline (query : String) : Bool := (Text.trimStart query.toList).head? == some '\x7b'

/-- The text of a query. -/
def queryText (query : String) : Step String := do
  if isInline query then return query
  match ← readFile query with
  | .ok text => return text
  | .error fault => throw ("Failed to read query file " ++ query ++ ": " ++ fault.message)

/-- The relation that is asked for. -/
def loadRelation (config : Config) (args : Arguments) : Step Relation := do
  match args.schema <|> config.schemaPath with
  | none => throw "No schema. Use --schema or set schema_path in keep.toml"
  | some path =>
    let a ← loadSchema path
    match Json.parse? (← queryText args.query) with
    | none => throw "Query is not valid JSON"
    | some wire => return (← ofExcept ((Algebra.ofWire wire).run a)).1

/-! ## Commands -/

/-- Prints the statement of a relation. -/
def printStatement (r : Relation) : Step Unit := do
  print (Report.statement (← ofExcept (Sql.compile r)))

/-- Opens the database of a URL. -/
def connect (url : String) : Step Database := do
  match ← ofExcept (Database.Address.ofUrl url) with
  | .memory => return .empty
  | .file path =>
    match ← openDatabase path with
    | some db => return db
    | none => ofExcept (.error Database.Address.unreachable)

/-- Prints the rows of a relation. -/
def printRows (url : String) (format : Format) (r : Relation) : Step Unit := do
  let db ← connect url
  let tuples ← ofExcept (db.all r)
  print <|
    match format with
    | .table => Report.grid tuples
    | .json => Report.json tuples

/-- Does what the arguments ask for. -/
def carryOut (s : Surroundings) (args : Arguments) : Step Unit := do
  let config ← loadConfig s args.config
  let r ← loadRelation config args
  match args.verb with
  | .sql => printStatement r
  | .wire => print (Report.value (← ofExcept r.toWire))
  | .run =>
    match args.databaseUrl <|> s.databaseUrl <|> config.databaseUrl with
    | none => throw "No database URL. Use --database-url or set KEEP_DATABASE_URL"
    | some url =>
      if args.verbose then
        printStatement r
        print (Report.ofLines [""])
      printRows url args.format r

/-- What is printed when the version is asked for. -/
def versionText : String := Report.ofLines ["keep 0.1.0"]

/-- The outcome of a step. -/
def outcomeOf : Except String Unit × String → Outcome
  | (.ok (), output) => ⟨output, .success⟩
  | (.error reason, output) => ⟨output, .failure reason⟩

/-- The program. -/
def run (s : Surroundings) (args : List String) : Interaction Outcome :=
  match Arguments.parse args with
  | .error .version => .done ⟨versionText, .success⟩
  | .error (.misuse fault) => .done ⟨"", .misuse fault⟩
  | .ok args => outcomeOf <$> ((carryOut s args).run).run ""

end RelationalAlgebra.CommandLine
