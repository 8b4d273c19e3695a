import RelationalAlgebra.Toml.Scalar

/-!
# Reading TOML: documents

A document is a list of lines that put values into tables.  While it is read, every table knows
how it came to be, because that decides who may still add to it:

* a table made on the way to another one by a header can be opened later by its own header, once;
* a table made by the dots of a key can be added to by other dotted keys only;
* a table with a header or between braces is complete when it ends.

`Toml.parse?` reads a document.
-/

namespace RelationalAlgebra.Toml

/-! ## Tables under construction -/

/-- What stands under a key while a document is read. -/
inductive Node where
  | value (v : Toml)
  /-- A table: whether it was only made on the way, whether by dots, and its fields. -/
  | table (implicit dotted : Bool) (fields : List (String × Node))
  /-- The tables of an array of tables, the last one first. -/
  | tables (last : List (String × Node)) (before : List (List (String × Node)))

/-- The fields of a table. -/
abbrev Fields := List (String × Node)

/-- Puts a node under a key; the one there is replaced. -/
def put (key : String) (node : Node) : Fields → Fields
  | [] => [(key, node)]
  | (other, old) :: rest =>
    if other = key then (key, node) :: rest else (other, old) :: put key node rest

/-- Changes the table that a path leads to.  Tables that are not there are made on the way; the
change also learns whether the table was made by dots. -/
def within (dots : Bool) (change : Bool → Fields → Option Fields) :
    (path : List String) → (dotted : Bool) → Fields → Option Fields
  | [], dotted, fields => change dotted fields
  | key :: path, _, fields =>
    match fields.lookup key with
    | none => do
      let inner ← within dots change path dots []
      return put key (.table true dots inner) fields
    | some (.value _) => none
    | some (.tables last before) => do
      let inner ← within dots change path false last
      return put key (.tables inner before) fields
    | some (.table implicit dotted inner) =>
      if dots && !implicit then none
      else do
        let inner ← within dots change path dotted inner
        return put key (.table implicit dotted inner) fields

/-- Puts a value under a key that is still free. -/
def putNew (key : String) (node : Node) (fields : Fields) : Option Fields :=
  if (fields.lookup key).isSome then none else some (put key node fields)

/-- Puts a value under a dotted key.  The dots lead to tables made by dots alone. -/
def putValue (keys : List String) (v : Toml) (fields : Fields) : Option Fields :=
  match keys.reverse with
  | [] => none
  | key :: path =>
    let path := path.reverse
    within true
      (fun dotted fields =>
        if dotted == path.isEmpty then none else putNew key (.value v) fields)
      path false fields

/-- Opens the table of a header. -/
def openTable (keys : List String) (fields : Fields) : Option Fields :=
  match keys.reverse with
  | [] => none
  | key :: path =>
    within false
      (fun _ fields =>
        match fields.lookup key with
        | none => some (put key (.table false false []) fields)
        | some (.table true false inner) => some (put key (.table false false inner) fields)
        | some _ => none)
      path.reverse false fields

/-- Adds a table to the array of a header. -/
def openTables (keys : List String) (fields : Fields) : Option Fields :=
  match keys.reverse with
  | [] => none
  | key :: path =>
    within false
      (fun _ fields =>
        match fields.lookup key with
        | none => some (put key (.tables [] []) fields)
        | some (.tables last before) => some (put key (.tables [] (last :: before)) fields)
        | some _ => none)
      path.reverse false fields

mutual

/-- The value of a node. -/
def Node.toValue : Node → Toml
  | .value v => v
  | .table _ _ fields => .table (fieldValues fields)
  | .tables last before => .array ((.table (fieldValues last) :: tableValues before).reverse)

/-- The values of fields. -/
def fieldValues : List (String × Node) → List (String × Toml)
  | [] => []
  | (key, node) :: rest => (key, node.toValue) :: fieldValues rest

/-- The values of tables. -/
def tableValues : List (List (String × Node)) → List Toml
  | [] => []
  | fields :: rest => .table (fieldValues fields) :: tableValues rest

end

/-! ## Values -/

/-- How deep arrays and tables between braces may be nested, and how long a dotted key may be. -/
def deepest : Nat := 79

/-- The items of an array, from behind its bracket. -/
def arrayItems (item : Reader Toml) : (fuel : Nat) → (done : List Toml) → Reader (List Toml)
  | 0, _, _ => none
  | fuel + 1, done, text =>
    match skipSpace text with
    | ']' :: rest => some (done.reverse, rest)
    | text => do
      let (v, text) ← item text
      match skipSpace text with
      | ',' :: rest => arrayItems item fuel (v :: done) rest
      | ']' :: rest => some ((v :: done).reverse, rest)
      | _ => none

/-- A key, an equals sign and a value. -/
def keyValue (value : Reader Toml) (text : List Char) :
    Option ((List String × Toml) × List Char) := do
  let (keys, text) ← dottedKey deepest text
  match text with
  | '=' :: rest =>
    let (v, text) ← value (skipBlanks rest)
    return ((keys, v), text)
  | _ => none

/-- The fields of a table between braces, from behind the first field's start on. -/
def inlineFields (value : Reader Toml) : (fuel : Nat) → (done : Fields) → Reader Fields
  | 0, _, _ => none
  | fuel + 1, done, text => do
    let ((keys, v), text) ← keyValue value text
    let done ← putValue keys v done
    match skipBlanks text with
    | ',' :: rest => inlineFields value fuel done rest
    | '}' :: rest => some (done, rest)
    | _ => none

/-- A value, nested no deeper than `depth`. -/
def value : (depth : Nat) → Reader Toml
  | depth, text =>
    match text with
    | '[' :: rest =>
      match depth with
      | 0 => none
      | depth + 1 =>
        (arrayItems (value depth) (rest.length + 1) [] rest).map fun (items, rest) =>
          (.array items, rest)
    | '{' :: rest =>
      match depth with
      | 0 => none
      | depth + 1 =>
        match skipBlanks rest with
        | '}' :: rest => some (.table [], rest)
        | rest =>
          (inlineFields (value depth) (rest.length + 1) [] rest).map fun (fields, rest) =>
            (.table (fieldValues fields), rest)
    | '"' :: rest => (anyString ('"' :: rest)).map fun (s, rest) => (.string s, rest)
    | '\'' :: rest => (anyString ('\'' :: rest)).map fun (s, rest) => (.string s, rest)
    | text =>
      let (word, rest) := takeWord text
      (wordValue? word).map fun v => (v, rest)

/-! ## Lines -/

/-- What is read so far: the document and the path of the open table. -/
structure Progress where
  fields : Fields
  header : List String

/-- A header between brackets: its keys, and what follows the closing brackets. -/
def header (closing : List Char) (text : List Char) : Option (List String × List Char) := do
  let (keys, text) ← dottedKey deepest text
  return (keys, ← Json.after? closing text)

/-- Puts the value of a line into the open table. -/
def putLine (p : Progress) (keys : List String) (v : Toml) : Option Progress := do
  let fields ← within false (fun _ fields => putValue keys v fields) p.header false p.fields
  return { p with fields }

/-- A line that is not empty. -/
def line (p : Progress) (text : List Char) : Option (Progress × List Char) :=
  match text with
  | '[' :: '[' :: rest => do
    let (keys, text) ← header [']', ']'] rest
    return (⟨← openTables keys p.fields, keys⟩, text)
  | '[' :: rest => do
    let (keys, text) ← header [']'] rest
    return (⟨← openTable keys p.fields, keys⟩, text)
  | text => do
    let ((keys, v), text) ← keyValue (value deepest) text
    return (← putLine p keys v, text)

/-- The lines of a document. -/
def lines : (fuel : Nat) → Progress → List Char → Option Progress
  | 0, _, _ => none
  | fuel + 1, p, text =>
    match skipSpace text with
    | [] => some p
    | text => do
      let (p, text) ← line p text
      lines fuel p (← endOfLine? text)

/-- A text without the mark of its byte order. -/
def dropByteOrderMark : List Char → List Char
  | c :: rest => if c.toNat = 0xFEFF then rest else c :: rest
  | [] => []

/-- The table a document stands for. -/
def parse? (text : String) : Option Toml := do
  let text := dropByteOrderMark text.toList
  let p ← lines (text.length + 1) ⟨[], []⟩ text
  return .table (fieldValues p.fields)

end RelationalAlgebra.Toml
