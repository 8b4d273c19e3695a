import RelationalAlgebra.Error
import RelationalAlgebra.Toml.Document

/-!
# Configuration

Where the schema and the database are, unless the command line says so.  A configuration is read
from TOML; every setting may be left out.
-/

namespace RelationalAlgebra

/-- The settings. -/
structure Config where
  databaseUrl : Option String
  maxConnections : UInt32
  logFilter : String
  schemaPath : Option String
  deriving DecidableEq, Repr

namespace Config

/-- What holds without a configuration file. -/
def default : Config := ⟨none, 5, "keep=info", none⟩

/-- The number of a setting that has to fit into 32 bits. -/
def word? (value : Toml) : Option UInt32 :=
  match value with
  | .integer n => if 0 ≤ n ∧ n < UInt32.size then some n.toNat.toUInt32 else none
  | _ => none

/-- The configuration of a TOML value. -/
def ofToml? (value : Toml) : Option Config := do
  return {
    databaseUrl := ← ((value.get? "database_url").mapM Toml.string?)
    maxConnections := ← ((value.get? "max_connections").elim (some default.maxConnections) word?)
    logFilter := ← ((value.get? "log_filter").elim (some default.logFilter) Toml.string?)
    schemaPath := ← ((value.get? "schema_path").mapM Toml.string?) }

/-- The configuration of a TOML document. -/
def parse (text : String) : Except Error Config :=
  match (Toml.parse? text).bind ofToml? with
  | some config => .ok config
  | none => .error (.config "Failed to parse config")

/-! ## Settings -/

/-- The configuration with another database. -/
def withDatabase (c : Config) (url : String) : Config := { c with databaseUrl := some url }

/-- The configuration with another limit on connections. -/
def withMaxConnections (c : Config) (n : UInt32) : Config := { c with maxConnections := n }

/-- The configuration with another log filter. -/
def withLogFilter (c : Config) (filter : String) : Config := { c with logFilter := filter }

/-- The configuration with another schema. -/
def withSchema (c : Config) (path : String) : Config := { c with schemaPath := some path }

end Config

end RelationalAlgebra
