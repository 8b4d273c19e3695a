import RelationalAlgebra.Json.Basic

/-!
# Reading JSON

`Json.parse?` reads a text that holds one JSON value.  It is strict: no comments, no commas at
the end of a list, no control characters inside strings, no half of a surrogate pair, and no
nesting deeper than it is told to allow.

Every reader takes what it reads off the front of a list of characters and returns the rest;
`none` means that the text is not JSON.  Values are read by recursion on the nesting that is
left, lists of items by recursion on the length of the text.

**Numbers.**  Digits are taken up into 64 bits for as long as they fit.  A number with a point or
an exponent, or one too long for its bits, is the product of the digits taken up and a power of
ten in binary floating-point arithmetic.
-/

namespace RelationalAlgebra

namespace Json

/-! ## Blanks and words -/

/-- The blanks of JSON. -/
def isBlank (c : Char) : Bool := c == ' ' || c == '\n' || c == '\r' || c == '\t'

/-- A text without the blanks it starts with. -/
def skipBlanks (text : List Char) : List Char := text.dropWhile isBlank

/-- What follows a word, if the text starts with it. -/
def after? (word text : List Char) : Option (List Char) :=
  if word.isPrefixOf text then some (text.drop word.length) else none

/-! ## Numbers -/

/-- The largest number of 64 bits. -/
def maxWord : Nat := UInt64.size - 1

/-- Takes digits up into a number of 64 bits for as long as it does not overflow; the digits left
over are returned with it. -/
def takeUp : List Char → Nat → Nat × List Char
  | [], n => (n, [])
  | c :: rest, n =>
    let next := n * 10 + (c.toNat - '0'.toNat)
    if next ≤ maxWord then takeUp rest next else (n, c :: rest)

/-- A power of ten as a binary fraction; the power is at most 308. -/
def tenTo (power : Nat) : Float := Float.ofScientific 1 false power

/-- Divides by 10 ^ 308 until the power left is one that `tenTo` has. -/
def scaleDown : (fuel : Nat) → Float → (power : Nat) → Float
  | 0, x, _ => x
  | fuel + 1, x, power =>
    if power ≤ 308 then x / tenTo power
    else if x == 0.0 then x
    else scaleDown fuel (x / tenTo 308) (power - 308)

/-- Digits times a power of ten; `none` if the product is too large. -/
def scale? (digits : Nat) (power : Int) : Option Float :=
  let x := (UInt64.ofNat digits).toFloat
  if power < 0 then some (scaleDown (power.natAbs / 308 + 1) x power.natAbs)
  else if 308 < power then (if digits = 0 then some x else none)
  else
    let product := x * tenTo power.toNat
    if product.isInf then none else some product

/-- A binary fraction with its sign. -/
def signed (negative : Bool) (x : Float) : JsonNumber :=
  .fraction (.ofFloat (if negative then -x else x))

/-- The parts of a number as it is written. -/
structure NumberText where
  negative : Bool
  whole : List Char
  /-- The digits behind the point, if there is a point. -/
  behind : Option (List Char)
  /-- Whether the exponent is negative and its digits, if there is one. -/
  power : Option (Bool × List Char)

/-- The number that is written. -/
def NumberText.value? (t : NumberText) : Option JsonNumber :=
  let (n, dropped) := takeUp t.whole 0
  match t.behind, t.power, dropped with
  | none, none, [] =>
    if t.negative then
      if 0 < n ∧ Int64.minValue.toInt ≤ -(n : Int) then some (.integer (-n))
      else some (signed true (UInt64.ofNat n).toFloat)
    else some (.integer n)
  | _, _, _ =>
    let behind := t.behind.getD []
    let (n, left) := takeUp behind n
    let start : Int := (dropped.length : Int) - (behind.length - left.length : Nat)
    match t.power with
    | none => (scale? n start).map (signed t.negative)
    | some (negative, digits) =>
      let power := digits.foldl (fun p c => p * 10 + (c.toNat - '0'.toNat)) 0
      if Int32.maxValue.toInt < power then
        if n ≠ 0 ∧ !negative then none else some (signed t.negative 0.0)
      else (scale? n (if negative then start - power else start + power)).map (signed t.negative)

/-- The digits a text starts with, one at least. -/
def digits? (text : List Char) : Option (List Char × List Char) :=
  match text.takeWhile Char.isDigit with
  | [] => none
  | digits => some (digits, text.dropWhile Char.isDigit)

/-- The point and the digits behind it, if the text starts with a point. -/
def readBehind (text : List Char) : Option (Option (List Char) × List Char) :=
  match text with
  | '.' :: rest => (digits? rest).map fun (digits, rest) => (some digits, rest)
  | _ => some (none, text)

/-- The exponent, if the text starts with one. -/
def readPower (text : List Char) : Option (Option (Bool × List Char) × List Char) :=
  match text with
  | c :: rest =>
    if c == 'e' || c == 'E' then
      let (negative, rest) :=
        match rest with
        | '-' :: rest => (true, rest)
        | '+' :: rest => (false, rest)
        | _ => (false, rest)
      (digits? rest).map fun (digits, rest) => (some (negative, digits), rest)
    else some (none, text)
  | [] => some (none, [])

/-- A number.  Its whole part starts with a zero only if it is zero. -/
def readNumber (text : List Char) : Option (JsonNumber × List Char) := do
  let (negative, text) :=
    match text with
    | '-' :: rest => (true, rest)
    | _ => (false, text)
  let (whole, text) ← digits? text
  guard (!(whole.head? == some '0' && 1 < whole.length))
  let (behind, text) ← readBehind text
  let (power, text) ← readPower text
  let n ← NumberText.value? ⟨negative, whole, behind, power⟩
  return (n, text)

/-! ## Strings -/

/-- The value of a hexadecimal digit. -/
def hexValue? (c : Char) : Option Nat :=
  if c.isDigit then some (c.toNat - '0'.toNat)
  else if 'a' ≤ c ∧ c ≤ 'f' then some (c.toNat - 'a'.toNat + 10)
  else if 'A' ≤ c ∧ c ≤ 'F' then some (c.toNat - 'A'.toNat + 10)
  else none

/-- Four hexadecimal digits. -/
def hexUnit? : List Char → Option (Nat × List Char)
  | a :: b :: c :: d :: rest => do
    let a ← hexValue? a
    let b ← hexValue? b
    let c ← hexValue? c
    let d ← hexValue? d
    return (((a * 16 + b) * 16 + c) * 16 + d, rest)
  | _ => none

/-- A character written by its code; two surrogates make one character. -/
def codeEscape? (text : List Char) : Option (Char × List Char) := do
  let (unit, text) ← hexUnit? text
  if 0xDC00 ≤ unit ∧ unit ≤ 0xDFFF then none
  else if 0xD800 ≤ unit ∧ unit ≤ 0xDBFF then
    let text ← after? ['\\', 'u'] text
    let (low, text) ← hexUnit? text
    guard (0xDC00 ≤ low ∧ low ≤ 0xDFFF)
    return (Char.ofNat (0x10000 + (unit - 0xD800) * 0x400 + (low - 0xDC00)), text)
  else return (Char.ofNat unit, text)

/-- The character of a one-letter escape. -/
def shortEscape? (c : Char) : Option Char :=
  if c == '"' || c == '\\' || c == '/' then some c
  else if c == 'b' then some (Char.ofNat 8)
  else if c == 'f' then some (Char.ofNat 12)
  else if c == 'n' then some '\n'
  else if c == 'r' then some '\r'
  else if c == 't' then some '\t'
  else none

/-- The rest of a string behind its opening quote, and what follows its closing quote.  The
characters read so far are kept in reverse. -/
def readString : (fuel : Nat) → (done : List Char) → List Char → Option (String × List Char)
  | 0, _, _ => none
  | _ + 1, _, [] => none
  | fuel + 1, done, c :: rest =>
    if c == '"' then some (String.ofList done.reverse, rest)
    else if c.toNat < 32 then none
    else if c == '\\' then
      match rest with
      | 'u' :: rest =>
        match codeEscape? rest with
        | some (c, rest) => readString fuel (c :: done) rest
        | none => none
      | e :: rest =>
        match shortEscape? e with
        | some c => readString fuel (c :: done) rest
        | none => none
      | [] => none
    else readString fuel (c :: done) rest

/-- A string with its quotes. -/
def readQuoted : List Char → Option (String × List Char)
  | '"' :: rest => readString (rest.length + 1) [] rest
  | _ => none

/-! ## Values -/

/-- A list of things up to a closing bracket, separated by commas.  The opening bracket and one
thing at least stand before or have to follow. -/
def readList {α : Type} (closing : Char) (item : List Char → Option (α × List Char)) :
    (fuel : Nat) → (done : List α) → List Char → Option (List α × List Char)
  | 0, _, _ => none
  | fuel + 1, done, text => do
    let (x, text) ← item text
    match skipBlanks text with
    | ',' :: rest => readList closing item fuel (x :: done) rest
    | c :: rest => if c == closing then some ((x :: done).reverse, rest) else none
    | [] => none

/-- A list of things that may be empty. -/
def readBracketed {α : Type} (closing : Char) (item : List Char → Option (α × List Char))
    (text : List Char) : Option (List α × List Char) :=
  match skipBlanks text with
  | c :: rest =>
    if c == closing then some ([], rest) else readList closing item (text.length + 1) [] text
  | [] => none

/-- A name, a colon and a value. -/
def readField (value : List Char → Option (Json × List Char)) (text : List Char) :
    Option ((String × Json) × List Char) := do
  let (name, text) ← readQuoted (skipBlanks text)
  let text ← after? [':'] (skipBlanks text)
  let (v, text) ← value text
  return ((name, v), text)

/-- A value, nested no deeper than `depth`. -/
def readValue : (depth : Nat) → List Char → Option (Json × List Char)
  | depth, text =>
    match skipBlanks text with
    | [] => none
    | '"' :: rest => (readQuoted ('"' :: rest)).map fun (s, rest) => (.string s, rest)
    | '[' :: rest =>
      match depth with
      | 0 => none
      | depth + 1 =>
        (readBracketed ']' (readValue depth) rest).map fun (items, rest) => (.array items, rest)
    | '{' :: rest =>
      match depth with
      | 0 => none
      | depth + 1 =>
        (readBracketed '}' (readField (readValue depth)) rest).map fun (fields, rest) =>
          (ofFields fields, rest)
    | c :: rest =>
      if c == 'n' then (after? ['n', 'u', 'l', 'l'] (c :: rest)).map fun rest => (.null, rest)
      else if c == 't' then
        (after? ['t', 'r', 'u', 'e'] (c :: rest)).map fun rest => (.bool true, rest)
      else if c == 'f' then
        (after? ['f', 'a', 'l', 's', 'e'] (c :: rest)).map fun rest => (.bool false, rest)
      else (readNumber (c :: rest)).map fun (n, rest) => (.number n, rest)

/-- How deep arrays and objects of a text may be nested. -/
def deepest : Nat := 127

/-- The value a text holds, nested no deeper than `depth`. -/
def parseWithin? (depth : Nat) (text : String) : Option Json := do
  let (value, rest) ← readValue depth text.toList
  guard (skipBlanks rest).isEmpty
  return value

/-- The value a text holds. -/
def parse? (text : String) : Option Json := parseWithin? deepest text

end Json

end RelationalAlgebra
