import RelationalAlgebra.Value

/-!
# Placeholders

Literals do not stand in a statement; placeholders `:v1`, `:v2`, … do, and the values travel
beside it.  `Placeholders.add` gives out the names in order.

Databases spell placeholders in different ways.  `Placeholders.respell` goes over a finished text,
replaces the placeholders that have a value and lists the values in the order of their occurrence.
Between double quotes nothing is a placeholder.
-/

namespace RelationalAlgebra.Sql

/-- Values by the names of their placeholders, in the order the names were given out. -/
structure Placeholders where
  entries : List (String × Value)
  deriving DecidableEq, Repr

namespace Placeholders

/-- No values. -/
def empty : Placeholders := ⟨[]⟩

/-- The name of the placeholder number `n`. -/
def nameOf (n : Nat) : String := "v" ++ toString n

/-- Gives a value the next name. -/
def add (p : Placeholders) (value : Value) : String × Placeholders :=
  let name := nameOf (p.entries.length + 1)
  (name, ⟨p.entries ++ [(name, value)]⟩)

/-- The value of a name. -/
def get? (p : Placeholders) (name : String) : Option Value := p.entries.lookup name

/-- The values as a JSON object, with plain JSON scalars. -/
def toJson (p : Placeholders) : Json :=
  .ofFields (p.entries.map fun (name, value) => (name, value.toJson))

/-! ## Styles -/

/-- How a database spells placeholders. -/
inductive Style where
  /-- By name, `:v1`. -/
  | named
  /-- By a question mark. -/
  | question
  /-- By number, `$1`. -/
  | dollar
  deriving DecidableEq, Repr

/-- The style of the database behind a connection URL. -/
def Style.ofUrl (url : String) : Style :=
  if "postgres".toList.isPrefixOf url.toList then .dollar else .question

/-- The spelling of the placeholder of a name that is the `n`-th in the text. -/
def Style.spell (style : Style) (name : List Char) (n : Nat) : List Char :=
  match style with
  | .named => ':' :: name
  | .question => ['?']
  | .dollar => '$' :: (toString n).toList

/-! ## Respelling -/

/-- The name of the placeholder that a colon before the text starts, if it has a value: the
letter v and all the digits behind it. -/
def nameAt? (p : Placeholders) (text : List Char) : Option (List Char × Value) :=
  match text with
  | 'v' :: rest =>
    match rest.takeWhile Char.isDigit with
    | [] => none
    | digits => (p.get? (String.ofList ('v' :: digits))).map fun value => ('v' :: digits, value)
  | _ => none

/-- Respells the text from a place on.  `quoted` says whether the place is between double quotes,
`skip` how many of the next characters belong to a placeholder that is respelled already, and
`bound` how many placeholders stand before. -/
def respellFrom (p : Placeholders) (style : Style) :
    (quoted : Bool) → (skip bound : Nat) → List Char → List Char × List Value
  | _, _, _, [] => ([], [])
  | quoted, skip + 1, bound, _ :: rest => respellFrom p style quoted skip bound rest
  | quoted, 0, bound, c :: rest =>
    if c == '"' then
      let (text, values) := respellFrom p style (!quoted) 0 bound rest
      (c :: text, values)
    else
      match if quoted || c != ':' then none else p.nameAt? rest with
      | some (name, value) =>
        let (text, values) := respellFrom p style quoted name.length (bound + 1) rest
        (style.spell name (bound + 1) ++ text, value :: values)
      | none =>
        let (text, values) := respellFrom p style quoted 0 bound rest
        (c :: text, values)

/-- The text with its placeholders in another style, and the values to bind, one for every
occurrence. -/
def respell (p : Placeholders) (style : Style) (text : String) : String × List Value :=
  let (respelled, values) := respellFrom p style false 0 0 text.toList
  (String.ofList respelled, values)

end Placeholders

end RelationalAlgebra.Sql
