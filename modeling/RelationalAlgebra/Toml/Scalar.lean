import RelationalAlgebra.Instant.Rfc3339
import RelationalAlgebra.Json.Reader
import RelationalAlgebra.Toml.Basic

/-!
# Reading TOML: blanks, keys and scalars

The parts of a TOML document that do not nest.  Every reader takes what it reads off the front of
a list of characters and returns the rest; `none` means that the text is not TOML.
-/

namespace RelationalAlgebra.Toml

/-- A reader of a part of a document. -/
abbrev Reader (α : Type) := List Char → Option (α × List Char)

/-! ## Blanks, comments and line ends -/

/-- The blanks within a line. -/
def isBlank (c : Char) : Bool := c == ' ' || c == '\t'

/-- A text without the blanks it starts with. -/
def skipBlanks (text : List Char) : List Char := text.dropWhile isBlank

/-- Whether a character may stand in a comment or in a string: no control character but the
tab. -/
def isPrintable (c : Char) : Bool := c == '\t' || (32 ≤ c.toNat && c.toNat != 127)

/-- A text without the comment it starts with. -/
def skipComment : List Char → List Char
  | '#' :: rest => rest.dropWhile isPrintable
  | text => text

/-- What follows a line end. -/
def lineEnd? : List Char → Option (List Char)
  | '\n' :: rest => some rest
  | '\r' :: '\n' :: rest => some rest
  | _ => none

/-- What follows blanks, a comment and the end of the line or of the text. -/
def endOfLine? (text : List Char) : Option (List Char) :=
  match skipComment (skipBlanks text) with
  | [] => some []
  | text => lineEnd? text

/-- A text without the blanks, comments and line ends it starts with. -/
def skipLines : (fuel : Nat) → List Char → List Char
  | 0, text => text
  | fuel + 1, text =>
    let text := skipComment (skipBlanks text)
    match lineEnd? text with
    | some rest => skipLines fuel rest
    | none => text

/-- A text without the blanks, comments and line ends it starts with. -/
def skipSpace (text : List Char) : List Char := skipLines (text.length + 1) text

/-! ## Strings -/

/-- A number of hexadecimal digits that are the code of a character. -/
def codePoint? : (digits code : Nat) → Reader Char
  | 0, code, text => if code.isValidChar then some (Char.ofNat code, text) else none
  | digits + 1, code, c :: rest => do codePoint? digits (code * 16 + (← Json.hexValue? c)) rest
  | _ + 1, _, [] => none

/-- The character of an escape, from behind the backslash. -/
def escape? : Reader Char
  | 'u' :: rest => codePoint? 4 0 rest
  | 'U' :: rest => codePoint? 8 0 rest
  | c :: rest => if c == '/' then none else (Json.shortEscape? c).map fun e => (e, rest)
  | [] => none

/-- The rest of a string of one line. -/
def basicBody : (fuel : Nat) → (done : List Char) → Reader String
  | 0, _, _ => none
  | _ + 1, _, [] => none
  | fuel + 1, done, c :: rest =>
    if c == '"' then some (String.ofList done.reverse, rest)
    else if c == '\\' then do
      let (e, rest) ← escape? rest
      basicBody fuel (e :: done) rest
    else if isPrintable c then basicBody fuel (c :: done) rest
    else none

/-- The rest of a string of one line without escapes. -/
def literalBody : (done : List Char) → Reader String
  | _, [] => none
  | done, c :: rest =>
    if c == '\'' then some (String.ofList done.reverse, rest)
    else if isPrintable c then literalBody (c :: done) rest
    else none

/-- Blanks and at least one line end, as they may follow a backslash at the end of a line. -/
def continuation? (text : List Char) : Option (List Char) := do
  let rest ← lineEnd? (skipBlanks text)
  return rest.dropWhile fun c => isBlank c || c == '\n' || c == '\r'

/-- The rest of a string of several lines.  Three quotes end it, and up to two more before them
belong to it. -/
def longBody (quote : Char) (escapes : Bool) : (fuel : Nat) → (done : List Char) → Reader String
  | 0, _, _ => none
  | _ + 1, _, [] => none
  | fuel + 1, done, c :: rest =>
    if c == quote then
      let extra := rest.takeWhile (· == quote)
      if extra.length < 2 then longBody quote escapes fuel (c :: done) rest
      else if 4 < extra.length then none
      else
        some (String.ofList (done.reverse ++ extra.drop 2), rest.drop extra.length)
    else if escapes && c == '\\' then
      match continuation? rest with
      | some rest => longBody quote escapes fuel done rest
      | none => do
        let (e, rest) ← escape? rest
        longBody quote escapes fuel (e :: done) rest
    else
      match lineEnd? (c :: rest) with
      | some rest => longBody quote escapes fuel ('\n' :: done) rest
      | none => if isPrintable c then longBody quote escapes fuel (c :: done) rest else none

/-- A line end straight behind the opening quotes is not part of the string. -/
def dropFirstLineEnd (text : List Char) : List Char := (lineEnd? text).getD text

/-- A string that may stand for a key: one line, in either quotes. -/
def shortString : Reader String
  | '"' :: rest => basicBody (rest.length + 1) [] rest
  | '\'' :: rest => literalBody [] rest
  | _ => none

/-- A string. -/
def anyString : Reader String
  | '"' :: '"' :: '"' :: rest => longBody '"' true (rest.length + 1) [] (dropFirstLineEnd rest)
  | '\'' :: '\'' :: '\'' :: rest => longBody '\'' false (rest.length + 1) [] (dropFirstLineEnd rest)
  | text => shortString text

/-! ## Keys -/

/-- A character of a key without quotes. -/
def isBare (c : Char) : Bool := c.isAlphanum || c == '_' || c == '-'

/-- A single key. -/
def simpleKey (text : List Char) : Option (String × List Char) :=
  match shortString text with
  | some key => some key
  | none =>
    match text.takeWhile isBare with
    | [] => none
    | key => some (String.ofList key, text.dropWhile isBare)

/-- Keys with dots between them, no more than `most`. -/
def dottedKey : (most : Nat) → Reader (List String)
  | 0, _ => none
  | most + 1, text => do
    let (key, text) ← simpleKey (skipBlanks text)
    match skipBlanks text with
    | '.' :: rest =>
      let (keys, text) ← dottedKey most rest
      return (key :: keys, text)
    | text => return ([key], text)

/-! ## Numbers, dates and times -/

/-- The digits of a number without the underscores between them; an underscore needs a digit on
both sides. -/
def joinedDigits? (isDigit : Char → Bool) : List Char → Option (List Char)
  | [] => none
  | [c] => if isDigit c then some [c] else none
  | c :: '_' :: rest => if isDigit c then (joinedDigits? isDigit rest).map (c :: ·) else none
  | c :: rest => if isDigit c then (joinedDigits? isDigit rest).map (c :: ·) else none

/-- The number that digits of a base stand for. -/
def ofDigits (base : Nat) (digits : List Char) : Nat :=
  digits.foldl (fun n c => n * base + (Json.hexValue? c).getD 0) 0

/-- Whether a character is a digit of a base. -/
def isDigitOf (base : Nat) (c : Char) : Bool :=
  match Json.hexValue? c with
  | some d => d < base
  | none => false

/-- A sign and what follows it. -/
def splitSign : List Char → Bool × List Char
  | '-' :: rest => (true, rest)
  | '+' :: rest => (false, rest)
  | text => (false, text)

/-- Decimal digits of a whole number: no zero before other digits. -/
def wholeDigits? (text : List Char) : Option (List Char) := do
  let digits ← joinedDigits? Char.isDigit text
  guard (!(digits.head? == some '0' && 1 < digits.length))
  return digits

/-- An integer of 64 bits. -/
def word? (n : Int) : Option Toml :=
  if Int64.minValue.toInt ≤ n ∧ n ≤ Int64.maxValue.toInt then some (.integer n) else none

/-- The integer of a word in the text. -/
def integer? : List Char → Option Toml
  | '0' :: 'x' :: digits => based 16 digits
  | '0' :: 'o' :: digits => based 8 digits
  | '0' :: 'b' :: digits => based 2 digits
  | text => do
    let (negative, text) := splitSign text
    let n := ofDigits 10 (← wholeDigits? text)
    word? (if negative then -(n : Int) else n)
where
  /-- The integer of digits of a base other than ten. -/
  based (base : Nat) (digits : List Char) : Option Toml := do
    word? (ofDigits base (← joinedDigits? (isDigitOf base) digits))

/-- Whether a word is the exponent of a floating-point number, from behind its letter. -/
def isExponent (text : List Char) : Bool := (joinedDigits? Char.isDigit (splitSign text).2).isSome

/-- Whether a character starts an exponent. -/
def isExponentMark (c : Char) : Bool := c == 'e' || c == 'E'

/-- Whether a word is a floating-point number. -/
def isFloat (text : List Char) : Bool :=
  let text := (splitSign text).2
  if text == ['i', 'n', 'f'] || text == ['n', 'a', 'n'] then true
  else
    let whole := text.takeWhile fun c => c != '.' && !isExponentMark c
    (wholeDigits? whole).isSome &&
      match text.drop whole.length with
      | '.' :: rest =>
        let behind := rest.takeWhile fun c => !isExponentMark c
        (joinedDigits? Char.isDigit behind).isSome &&
          match rest.drop behind.length with
          | [] => true
          | _ :: power => isExponent power
      | _ :: power => isExponent power
      | [] => false

/-- A date. -/
def date? (text : List Char) : Option (List Char) := do
  let (year, text) ← (Instant.readDigits 4 0 text).toOption
  let ((), text) ← (Instant.readOneOf ['-'] text).toOption
  let (month, text) ← (Instant.readDigits 2 0 text).toOption
  let ((), text) ← (Instant.readOneOf ['-'] text).toOption
  let (day, text) ← (Instant.readDigits 2 0 text).toOption
  let _ ← Date.of? year month day
  return text

/-- A time of day. -/
def time? (text : List Char) : Option (List Char) := do
  let (hour, text) ← (Instant.readDigits 2 0 text).toOption
  let ((), text) ← (Instant.readOneOf [':'] text).toOption
  let (minute, text) ← (Instant.readDigits 2 0 text).toOption
  let ((), text) ← (Instant.readOneOf [':'] text).toOption
  let (second, text) ← (Instant.readDigits 2 0 text).toOption
  guard (hour < 24 && minute < 60 && second ≤ 60)
  let (_, text) ← (Instant.readOptionalFraction text).toOption
  return text

/-- An offset from universal time. -/
def offset? (text : List Char) : Option (List Char) :=
  match text with
  | [] => some []
  | _ => (Instant.readOffset (Instant.readOneOf [':']) text).toOption.map (·.2)

/-- Whether a word is a date, a time, or both. -/
def isDatetime (text : List Char) : Bool :=
  (time? text == some []) ||
    match date? text with
    | some [] => true
    | some (c :: rest) =>
      (c == 'T' || c == 't' || c == ' ') && (time? rest).bind offset? == some []
    | none => false

/-- A character of a number, a date or a time. -/
def isWordChar (c : Char) : Bool := isBare c || c == '+' || c == '.' || c == ':'

/-- The word a text starts with.  A date takes the time behind a blank with it. -/
def takeWord (text : List Char) : List Char × List Char :=
  let word := text.takeWhile isWordChar
  let rest := text.drop word.length
  match rest with
  | ' ' :: c :: more =>
    if (date? word == some []) && c.isDigit then
      let time := (c :: more).takeWhile isWordChar
      (word ++ ' ' :: time, (c :: more).drop time.length)
    else (word, rest)
  | _ => (word, rest)

/-- The value of a word. -/
def wordValue? (word : List Char) : Option Toml :=
  if word == ['t', 'r', 'u', 'e'] then some (.boolean true)
  else if word == ['f', 'a', 'l', 's', 'e'] then some (.boolean false)
  else if isDatetime word then some .datetime
  else if isFloat word then some .float
  else integer? word

end RelationalAlgebra.Toml
