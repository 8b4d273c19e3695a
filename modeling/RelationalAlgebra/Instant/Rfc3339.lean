import RelationalAlgebra.Instant.Basic
import RelationalAlgebra.Text.Whitespace

/-!
# Instants as text

The date and time format of RFC 3339, `2024-03-01T12:30:00.5+02:00`.

* **Writing** (`Instant.write`) prints universal time with 0, 3, 6 or 9 digits of the second's
  fraction, the fewest that lose nothing, and the spelling of the offset that is asked for.
* **Reading** (`Instant.read`) accepts any offset and says what is wrong with a text it refuses.
* **Lenient reading** (`Instant.readLenient?`) also accepts short fields, blanks between the
  fields and years of more or fewer than four digits.

The readers work on lists of characters: each takes what it reads off the front and returns the
rest.
-/

namespace RelationalAlgebra

namespace Instant

/-! ## Writing -/

/-- Decimal digits of a number, at least `width` of them. -/
def padded (width n : Nat) : List Char :=
  let digits := Nat.toDigits 10 n
  List.replicate (width - digits.length) '0' ++ digits

/-- A year has four digits; one outside 0 to 9999 has a sign and at least four. -/
def writeYear (year : Int) : List Char :=
  if 0 ≤ year && year ≤ 9999 then padded 4 year.toNat
  else (if year < 0 then '-' else '+') :: padded 4 year.natAbs

/-- The fraction of a second, in whole groups of three digits. -/
def writeFraction (nanosecond : Nat) : List Char :=
  if nanosecond = 0 then []
  else if nanosecond % 1000000 = 0 then '.' :: padded 3 (nanosecond / 1000000)
  else if nanosecond % 1000 = 0 then '.' :: padded 6 (nanosecond / 1000)
  else '.' :: padded 9 nanosecond

/-- Date and time without the offset. -/
def writeLocal (t : Instant) : List Char :=
  writeYear t.date.year ++ '-' :: padded 2 t.date.month ++ '-' :: padded 2 t.date.day ++
    'T' :: padded 2 t.hour ++ ':' :: padded 2 t.minute ++ ':' :: padded 2 t.second ++
      writeFraction t.nanosecond

/-- An instant in universal time, with the given spelling of the offset. -/
def write (t : Instant) (offset : String) : String := String.ofList t.writeLocal ++ offset

/-- The text with a numeric offset, `2024-03-01T12:30:00+00:00`. -/
def toText (t : Instant) : String := t.write "+00:00"

/-- The text with the letter for universal time, `2024-03-01T12:30:00Z`. -/
def toZulu (t : Instant) : String := t.write "Z"

/-! ## Reading -/

/-- Why a text is not an instant. -/
inductive Fault where
  /-- The text stops too early. -/
  | premature
  /-- A character that cannot stand where it does. -/
  | invalid
  /-- A field names no day, time or offset. -/
  | outOfRange
  /-- The text goes on behind the offset. -/
  | trailing
  deriving DecidableEq, Repr

/-- The wording of a fault. -/
def Fault.message : Fault → String
  | .premature => "premature end of input"
  | .invalid => "input contains invalid characters"
  | .outOfRange => "input is out of range"
  | .trailing => "trailing input"

/-- A reader takes something off the front of a text and returns the rest of it. -/
abbrev Reader (α : Type) := List Char → Except Fault (α × List Char)

/-- The value of a decimal digit. -/
def digit? (c : Char) : Option Nat := if c.isDigit then some (c.toNat - '0'.toNat) else none

/-- Exactly `count` digits, read as a number behind the digits read before. -/
def readDigits : (count : Nat) → (before : Nat) → Reader Nat
  | 0, n, text => .ok (n, text)
  | _ + 1, _, [] => .error .premature
  | count + 1, n, c :: rest =>
    match digit? c with
    | some d => readDigits count (n * 10 + d) rest
    | none => .error .invalid

/-- One character out of a set. -/
def readOneOf (allowed : List Char) : Reader Unit
  | [] => .error .premature
  | c :: rest => if allowed.contains c then .ok ((), rest) else .error .invalid

/-- Up to `count` digits of a number that has read `n` from `seen` digits so far. -/
def readUpTo : (count : Nat) → (n seen : Nat) → List Char → (Nat × Nat) × List Char
  | 0, n, seen, text => ((n, seen), text)
  | _ + 1, n, seen, [] => ((n, seen), [])
  | count + 1, n, seen, c :: rest =>
    match digit? c with
    | some d => readUpTo count (n * 10 + d) (seen + 1) rest
    | none => ((n, seen), c :: rest)

/-- The digits of a fraction as nanoseconds; digits after the ninth are dropped. -/
def readFraction : Reader Nat
  | [] => .error .premature
  | text =>
    let ((n, seen), rest) := readUpTo 9 0 0 text
    if seen = 0 then .error .invalid
    else .ok (n * Nat.pow 10 (9 - seen), rest.dropWhile Char.isDigit)

/-- An optional fraction of a second. -/
def readOptionalFraction : Reader Nat
  | '.' :: rest => readFraction rest
  | text => .ok (0, text)

/-- The sign of an offset; the minus may be the typographic one.  East is positive. -/
def readSign : Reader Int
  | [] => .error .premature
  | c :: rest =>
    if c == '+' then .ok (1, rest)
    else if c == '-' || c.toNat == 0x2212 then .ok (-1, rest)
    else .error .invalid

/-- Two digits of an offset.  Two bytes have to be there before either is looked at. -/
def readOffsetField : Reader Nat
  | a :: b :: rest =>
    match digit? a, digit? b with
    | some x, some y => .ok (x * 10 + y, rest)
    | _, _ => .error .invalid
  | [a] => if a.utf8Size = 1 then .error .premature else .error .invalid
  | [] => .error .premature

/-- An offset in minutes.  What separates its hours from its minutes is up to the caller. -/
def readOffset (separator : Reader Unit) : Reader Int
  | 'Z' :: rest => .ok (0, rest)
  | 'z' :: rest => .ok (0, rest)
  | text => do
    let (sign, text) ← readSign text
    let (hours, text) ← readOffsetField text
    let ((), text) ← separator text
    let (minutes, text) ← readOffsetField text
    if 60 ≤ minutes then .error .outOfRange
    else if 24 ≤ hours then .error .outOfRange
    else .ok (sign * (hours * 60 + minutes), text)

/-- Date, time and offset, each field of its full width. -/
def readFull : Reader Instant := fun text => do
  let (year, text) ← readDigits 4 0 text
  let ((), text) ← readOneOf ['-'] text
  let (month, text) ← readDigits 2 0 text
  let ((), text) ← readOneOf ['-'] text
  let (day, text) ← readDigits 2 0 text
  let some date := Date.of? year month day | .error .outOfRange
  let ((), text) ← readOneOf ['T', 't', ' '] text
  let (hour, text) ← readDigits 2 0 text
  let ((), text) ← readOneOf [':'] text
  let (minute, text) ← readDigits 2 0 text
  let ((), text) ← readOneOf [':'] text
  let (second, text) ← readDigits 2 0 text
  let (nanosecond, text) ← readOptionalFraction text
  let some t := Instant.of? date hour minute second nanosecond | .error .outOfRange
  let (minutes, text) ← readOffset (readOneOf [':']) text
  .ok (t.addMinutes (-minutes), text)

/-- The length of the shortest text, `2024-03-01T12:30:00Z`, in bytes. -/
def shortestText : Nat := 20

/-- Reads a text as an instant.  A text too short for all its fields ends prematurely, whatever
stands in it. -/
def read (text : String) : Except Fault Instant :=
  if text.utf8ByteSize < shortestText then .error .premature
  else
    match readFull text.toList with
    | .error fault => .error fault
    | .ok (t, []) => .ok t
    | .ok (_, _ :: _) => .error .trailing

/-! ## Lenient reading -/

/-- At least one digit and no more than `most`, behind any blanks. -/
def lenientField (most : Nat) (text : List Char) : Option (Nat × List Char) :=
  let ((n, seen), rest) := readUpTo most 0 0 (Text.trimStart text)
  if seen = 0 then none else some (n, rest)

/-- A year: up to four digits, or a sign and any number of digits. -/
def lenientYear (text : List Char) : Option (Int × List Char) :=
  match Text.trimStart text with
  | '-' :: rest => (signed rest).map fun (n, rest) => (-(n : Int), rest)
  | '+' :: rest => (signed rest).map fun (n, rest) => ((n : Int), rest)
  | text => (lenientField 4 text).map fun (n, rest) => ((n : Int), rest)
where
  /-- Digits straight behind a sign. -/
  signed (text : List Char) : Option (Nat × List Char) :=
    let ((n, seen), rest) := readUpTo text.length 0 0 text
    if seen = 0 then none else some (n, rest)

/-- A mark that blanks may stand before. -/
def lenientMark (mark : Char) (text : List Char) : Option (List Char) :=
  match Text.trimStart text with
  | c :: rest => if c == mark then some rest else none
  | [] => none

/-- Blanks and colons, in any number, between the hours and the minutes of an offset. -/
def lenientSeparator : Reader Unit := fun text =>
  .ok ((), text.dropWhile fun c => c == ':' || Text.isWhitespace c)

/-- An offset, or the letters `UTC` in any case. -/
def lenientOffset (text : List Char) : Option (Int × List Char) :=
  let text := Text.trimStart text
  if (text.take 3).map Char.toUpper == ['U', 'T', 'C'] then some (0, text.drop 3)
  else (readOffset lenientSeparator text).toOption

/-- The years the calendar of lenient texts reaches back and forth to. -/
def lenientYears : Int × Int := (-262143, 262142)

/-- Reads a text as an instant, allowing short fields and blanks between fields. -/
def readLenient? (text : String) : Option Instant := do
  let (year, text) ← lenientYear text.toList
  let text ← lenientMark '-' text
  let (month, text) ← lenientField 2 text
  let text ← lenientMark '-' text
  let (day, text) ← lenientField 2 text
  guard (lenientYears.1 ≤ year && year ≤ lenientYears.2)
  let date ← Date.of? year month day
  let ((), text) ← (readOneOf ['T', 't', ' '] text).toOption
  let (hour, text) ← lenientField 2 text
  let text ← lenientMark ':' text
  let (minute, text) ← lenientField 2 text
  let text ← lenientMark ':' text
  let (second, text) ← lenientField 2 text
  let (nanosecond, text) ← (readOptionalFraction text).toOption
  let t ← Instant.of? date hour minute second nanosecond
  let (minutes, text) ← lenientOffset text
  guard (Text.trimStart text).isEmpty
  return t.addMinutes (-minutes)

end Instant

end RelationalAlgebra
