/-!
# Arguments of the command line

    keep [-c FILE] [-v] sql  [-c FILE] [-v] [-s FILE] -q QUERY
    keep [-c FILE] [-v] wire [-c FILE] [-v] [-s FILE] -q QUERY
    keep [-c FILE] [-v] run  [-c FILE] [-v] [-s FILE] -q QUERY [--database-url URL] [-f FORMAT]

A setting has a long name, and most have a short one.  Its value is the next argument, which must
not look like a setting, or stands in the same argument: `--query=x`, `-q=x` and `-qx` are alike.
Short names without values may share a hyphen.  Every setting can be given once on each side of
the command, and what is given behind the command counts.

`Arguments.parse` reads a list of arguments from left to right and stops at the first fault.
-/

namespace RelationalAlgebra.CommandLine

/-! ## Settings -/

/-- What can be set. -/
inductive Setting where
  | config
  | verbose
  | version
  | schema
  | query
  | databaseUrl
  | format
  deriving DecidableEq, Repr

namespace Setting

/-- The name behind two hyphens. -/
def long : Setting → String
  | .config => "config"
  | .verbose => "verbose"
  | .version => "version"
  | .schema => "schema"
  | .query => "query"
  | .databaseUrl => "database-url"
  | .format => "format"

/-- The name behind one hyphen. -/
def short? : Setting → Option Char
  | .config => some 'c'
  | .verbose => some 'v'
  | .version => some 'V'
  | .schema => some 's'
  | .query => some 'q'
  | .databaseUrl => none
  | .format => some 'f'

/-- Whether a value belongs to it. -/
def takesValue : Setting → Bool
  | .verbose => false
  | .version => false
  | _ => true

/-- Whether the value is the path of a file. -/
def isPath : Setting → Bool
  | .config => true
  | .schema => true
  | _ => false

end Setting

/-- The form in which rows are shown. -/
inductive Format where
  | table
  | json
  deriving DecidableEq, Repr

/-- The format of a name. -/
def Format.ofName? (name : String) : Option Format :=
  if name = "table" then some .table
  else if name = "json" then some .json
  else none

/-! ## What is asked for -/

/-- The names of the commands. -/
inductive Verb where
  | sql
  | wire
  | run
  deriving DecidableEq, Repr

namespace Verb

/-- The command of a name. -/
def ofName? (name : String) : Option Verb :=
  if name = "sql" then some .sql
  else if name = "wire" then some .wire
  else if name = "run" then some .run
  else none

/-- What can be set behind a command. -/
def settings : Verb → List Setting
  | .run => [.config, .verbose, .schema, .query, .databaseUrl, .format]
  | _ => [.config, .verbose, .schema, .query]

end Verb

/-- What a command line asks for. -/
structure Arguments where
  config : Option String
  verbose : Bool
  verb : Verb
  schema : Option String
  query : String
  databaseUrl : Option String
  format : Format
  deriving DecidableEq, Repr

/-- What is wrong with a command line. -/
inductive Misuse where
  | unknownArgument (text : String)
  | unexpectedValue (setting : Setting)
  | missingValue (setting : Setting)
  | invalidValue (setting : Setting) (text : String)
  | repeatedSetting (setting : Setting)
  | missingSetting (setting : Setting)
  | unknownCommand (name : String)
  | missingCommand
  deriving DecidableEq, Repr

/-- The wording of a fault. -/
def Misuse.message : Misuse → String
  | .unknownArgument text => "unexpected argument '" ++ text ++ "' found"
  | .unexpectedValue s => "unexpected value for '--" ++ s.long ++ "'"
  | .missingValue s => "a value is required for '--" ++ s.long ++ "'"
  | .invalidValue s text => "invalid value '" ++ text ++ "' for '--" ++ s.long ++ "'"
  | .repeatedSetting s => "the argument '--" ++ s.long ++ "' cannot be used multiple times"
  | .missingSetting s => "'--" ++ s.long ++ "' is required"
  | .unknownCommand name => "unrecognized subcommand '" ++ name ++ "'"
  | .missingCommand => "a subcommand is required"

/-- Why no command is carried out. -/
inductive Stop where
  /-- The version is asked for. -/
  | version
  | misuse (fault : Misuse)
  deriving DecidableEq, Repr

/-! ## Reading settings -/

/-- The settings read so far, with their values. -/
abbrev Given := List (Setting × String)

/-- Whether a setting can have a value. -/
def accepts (s : Setting) (value : String) : Bool :=
  if s.isPath then value != ""
  else if s = .format then (Format.ofName? value).isSome
  else true

/-- Adds a setting. -/
def give (given : Given) (s : Setting) (value : String) : Except Stop Given :=
  if s = .version then .error .version
  else if !accepts s value then .error (.misuse (.invalidValue s value))
  else if given.any (·.1 == s) then .error (.misuse (.repeatedSetting s))
  else .ok ((s, value) :: given)

/-- What has been read, with the setting whose value comes next. -/
structure Progress where
  given : Given
  pending : Option Setting

/-- Reads what stands behind two hyphens. -/
def readLong (known : List Setting) (given : Given) (text : List Char) : Except Stop Progress :=
  let (name, value) := text.span (· != '=')
  match known.find? (·.long == String.ofList name), value with
  | none, _ => .error (.misuse (.unknownArgument (String.ofList ('-' :: '-' :: name))))
  | some s, [] =>
    if s.takesValue then .ok ⟨given, some s⟩
    else (give given s "").map (⟨·, none⟩)
  | some s, _ :: value =>
    if s.takesValue then (give given s (String.ofList value)).map (⟨·, none⟩)
    else .error (.misuse (.unexpectedValue s))

/-- The value that stands behind a short name. -/
def attachedValue : List Char → List Char
  | '=' :: value => value
  | value => value

/-- Reads what stands behind one hyphen. -/
def readShort (known : List Setting) (given : Given) : List Char → Except Stop Progress
  | [] => .ok ⟨given, none⟩
  | c :: rest =>
    match known.find? (·.short? == some c) with
    | none => .error (.misuse (.unknownArgument (String.ofList ['-', c])))
    | some s =>
      if s.takesValue then
        if rest.isEmpty then .ok ⟨given, some s⟩
        else (give given s (String.ofList (attachedValue rest))).map (⟨·, none⟩)
      else
        match give given s "" with
        | .ok given => readShort known given rest
        | .error stop => .error stop

/-- Reads settings up to the first argument that is none. -/
def readSettings (known : List Setting) :
    Progress → List String → Except Stop (Given × List String)
  | ⟨given, none⟩, [] => .ok (given, [])
  | ⟨_, some s⟩, [] => .error (.misuse (.missingValue s))
  | ⟨given, some s⟩, arg :: rest =>
    match arg.toList with
    | '-' :: _ :: _ => .error (.misuse (.missingValue s))
    | _ =>
      match give given s arg with
      | .ok given => readSettings known ⟨given, none⟩ rest
      | .error stop => .error stop
  | ⟨given, none⟩, arg :: rest =>
    match arg.toList with
    | ['-', '-'] =>
      match rest with
      | [] => .ok (given, [])
      | next :: _ => .error (.misuse (.unknownArgument next))
    | '-' :: '-' :: text =>
      match readLong known given text with
      | .ok p => readSettings known p rest
      | .error stop => .error stop
    | '-' :: c :: text =>
      match readShort known given (c :: text) with
      | .ok p => readSettings known p rest
      | .error stop => .error stop
    | _ => .ok (given, arg :: rest)

/-! ## Reading a command line -/

namespace Arguments

/-- What the settings before and behind a command ask for. -/
def ofGiven (verb : Verb) (before behind : Given) : Except Stop Arguments :=
  match behind.lookup .query with
  | none => .error (.misuse (.missingSetting .query))
  | some query => .ok {
      config := behind.lookup .config <|> before.lookup .config
      verbose := (behind ++ before).any (·.1 == .verbose)
      verb
      schema := behind.lookup .schema
      query
      databaseUrl := behind.lookup .databaseUrl
      format := ((behind.lookup .format).bind Format.ofName?).getD .table }

/-- What a list of arguments asks for. -/
def parse (args : List String) : Except Stop Arguments := do
  let (before, rest) ← readSettings [.config, .verbose, .version] ⟨[], none⟩ args
  match rest with
  | [] => throw (.misuse .missingCommand)
  | name :: rest =>
    match Verb.ofName? name with
    | none => throw (.misuse (.unknownCommand name))
    | some verb =>
      let (behind, rest) ← readSettings verb.settings ⟨[], none⟩ rest
      match rest with
      | [] => ofGiven verb before behind
      | arg :: _ => throw (.misuse (.unknownArgument arg))

end Arguments

end RelationalAlgebra.CommandLine
