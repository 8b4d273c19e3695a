import RelationalAlgebra.Text.Lowercase
import RelationalAlgebra.Text.Numeric

/-!
# Identifiers

A name is written in SQL as it stands if that is safe, and between double quotes otherwise.  It
is safe when it holds nothing but letters, numbers and underscores, does not start with a number
and is no reserved word in any letter case.  Inside quotes a quote is written twice.

A name with dots is the names between the dots, each written on its own.
-/

namespace RelationalAlgebra.Sql

/-- The words that cannot stand for a name. -/
def reservedWords : List String :=
  ["order", "group", "user", "table", "select", "from", "where", "join", "left", "right", "inner",
   "outer", "on", "and", "or", "not", "null", "true", "false", "limit", "offset", "as", "in", "is",
   "like", "between", "having", "union", "all", "distinct", "case", "when", "then", "else", "end",
   "create", "alter", "drop", "insert", "update", "delete", "index", "key", "primary", "foreign",
   "references", "default", "constraint", "check"]

/-- Whether a name is a reserved word in some letter case. -/
def isReserved (name : List Char) : Bool :=
  reservedWords.contains (Text.lowercase (String.ofList name))

/-- Whether a character may stand in a name without quotes. -/
def isPlain (c : Char) : Bool := Text.isAlphanumeric c || c == '_'

/-- Whether a name starts with a number. -/
def startsNumeric : List Char → Bool
  | [] => false
  | c :: _ => Text.isNumeric c

/-- Whether a name without dots has to be quoted. -/
def needsQuotes (name : List Char) : Bool :=
  isReserved name || !name.all isPlain || startsNumeric name

/-- A quote is written twice. -/
def doubleQuotes : List Char → List Char
  | [] => []
  | c :: rest => if c == '"' then '"' :: '"' :: doubleQuotes rest else c :: doubleQuotes rest

/-- A name between quotes. -/
def quoted (name : List Char) : List Char := '"' :: doubleQuotes name ++ ['"']

/-- A name without dots as it is written. -/
def escapePart (name : List Char) : List Char := if needsQuotes name then quoted name else name

/-- The names between the dots, at least one. -/
def dotParts : List Char → List (List Char)
  | [] => [[]]
  | c :: rest =>
    if c == '.' then [] :: dotParts rest
    else
      match dotParts rest with
      | [] => [[c]]
      | part :: parts => (c :: part) :: parts

/-- Names with dots between them. -/
def joinDots : List (List Char) → List Char
  | [] => []
  | [part] => part
  | part :: parts => part ++ '.' :: joinDots parts

/-- A name as it is written. -/
def escapeChars (name : List Char) : List Char := joinDots ((dotParts name).map escapePart)

/-- A name as it is written. -/
def escape (name : String) : String := String.ofList (escapeChars name.toList)

/-- There is always a name before the first dot. -/
theorem dotParts_ne_nil (name : List Char) : dotParts name ≠ [] := by
  cases name with
  | nil => simp [dotParts]
  | cons c rest => unfold dotParts; split <;> (try split) <;> simp

theorem joinDots_cons_cons (c : Char) (part : List Char) (parts : List (List Char)) :
    joinDots ((c :: part) :: parts) = c :: joinDots (part :: parts) := by
  cases parts <;> rfl

/-- The names between the dots, with dots between them, are the name. -/
theorem joinDots_dotParts (name : List Char) : joinDots (dotParts name) = name := by
  induction name with
  | nil => rfl
  | cons c rest ih =>
    unfold dotParts
    split
    · next h =>
      rw [beq_iff_eq] at h
      cases hp : dotParts rest with
      | nil => exact absurd hp (dotParts_ne_nil rest)
      | cons part parts =>
        rw [joinDots, ← hp, ih, h]
        · rfl
        · simp
    · split
      · next hp => exact absurd hp (dotParts_ne_nil rest)
      · next part parts hp => rw [joinDots_cons_cons, ← hp, ih]

end RelationalAlgebra.Sql
