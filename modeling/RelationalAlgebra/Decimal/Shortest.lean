/-!
# The shortest decimal that reads back

A binary floating-point number stands for a whole interval of reals: those that are rounded to
it.  Its shortest decimal is found on the decimal grids of 1, 2, 3 … significant digits: the
first grid with a point in the interval wins, and of two such points the one nearer to the
number.  All comparisons are exact, between natural numbers.

* `Binary64` is a number of the 64-bit format, kept as its bits, so that equality is equality of
  bits.
* `Scientific` is a decimal number given by its digits and the power of ten of the first of them.
* `Binary64.shortest` is the search, and `Binary64.write` the text: positional where the power of
  ten is moderate, with an exponent elsewhere.
-/

namespace RelationalAlgebra

/-! ## Numbers of the 64-bit format -/

/-- A finite number of the 64-bit floating-point format. -/
structure Binary64 where
  bits : UInt64
  deriving DecidableEq, Repr

namespace Binary64

/-- The number of the machine's floating-point arithmetic. -/
def ofFloat (x : Float) : Binary64 := ⟨x.toBits⟩

/-- Whether the sign bit is set; it is for -0.0. -/
def isNegative (x : Binary64) : Bool := x.bits.toNat / Nat.pow 2 63 == 1

/-- The biased exponent. -/
def biased (x : Binary64) : Nat := x.bits.toNat / Nat.pow 2 52 % Nat.pow 2 11

/-- The fraction bits. -/
def fraction (x : Binary64) : Nat := x.bits.toNat % Nat.pow 2 52

/-- The absolute value is `significand * 2 ^ exponent`. -/
def significand (x : Binary64) : Nat :=
  if x.biased = 0 then x.fraction else x.fraction + Nat.pow 2 52

@[inherit_doc significand] def exponent (x : Binary64) : Int := (max x.biased 1 : Nat) - 1075

/-! ## The search -/

/-- A positive rational number. -/
structure Ratio where
  num : Nat
  den : Nat

/-- `n * 2 ^ two / 10 ^ ten` as a ratio of natural numbers. -/
def ratio (n : Nat) (two ten : Int) : Ratio :=
  ⟨n * Nat.pow 2 two.toNat * Nat.pow 10 (-ten).toNat,
    Nat.pow 2 (-two).toNat * Nat.pow 10 ten.toNat⟩

/-- The number of decimal digits. -/
def digitCount (n : Nat) : Nat := (Nat.toDigits 10 n).length

/-- The power of ten of the first significant digit of a ratio. -/
def leadingPower (r : Ratio) : Int :=
  if r.den ≤ r.num then (digitCount (r.num / r.den) : Int) - 1
  else
    let guess := digitCount r.den - digitCount r.num
    if r.den ≤ r.num * Nat.pow 10 guess then -(guess : Int) else -(guess + 1 : Int)

/-- The distance from the number down to the next smaller one, in quarters of the distance up:
only half as far where the exponent changes. -/
def quartersBelow (x : Binary64) : Nat := if x.fraction = 0 ∧ 1 < x.biased then 1 else 2

/-- Whether a point of the grid with step `10 ^ step` is rounded to the number.  The ends of the
interval belong to it when the significand is even. -/
def roundsTo (x : Binary64) (step : Int) (point : Nat) : Bool :=
  let low := ratio (4 * x.significand - x.quartersBelow) (x.exponent - 2) step
  let high := ratio (4 * x.significand + 2) (x.exponent - 2) step
  if x.significand % 2 = 0 then low.num ≤ point * low.den && point * high.den ≤ high.num
  else low.num < point * low.den && point * high.den < high.num

/-- The point of a grid that is rounded to the number: one of its two neighbours, the nearer one
if both are, the even one if both are equally near. -/
def gridPoint? (x : Binary64) (step : Int) : Option Nat :=
  let value := ratio x.significand x.exponent step
  let below := value.num / value.den
  let excess := 2 * (value.num - below * value.den)
  match roundsTo x step below, roundsTo x step (below + 1) with
  | true, true =>
    if excess < value.den ∨ (excess = value.den ∧ below % 2 = 0) then some below
    else some (below + 1)
  | true, false => some below
  | false, true => some (below + 1)
  | false, false => none

/-- A decimal number: significant digits without zeros at the end, and the power of ten of the
first of them. -/
structure Scientific where
  digits : List Char
  power : Int

/-- The decimal of a point of the grid with step `10 ^ step`. -/
def Scientific.ofPoint (point : Nat) (step : Int) : Scientific :=
  let all := Nat.toDigits 10 point
  ⟨(all.reverse.dropWhile (· == '0')).reverse, step + all.length - 1⟩

/-- The shortest decimal of a number that is not zero, looked for on grids of `digits` and more
digits.  Seventeen always suffice. -/
def shortestFrom (x : Binary64) (leading : Int) : (fuel digits : Nat) → Scientific
  | 0, _ => ⟨['0'], 0⟩
  | fuel + 1, digits =>
    let step := leading - digits + 1
    match gridPoint? x step with
    | some point => .ofPoint point step
    | none => shortestFrom x leading fuel (digits + 1)

/-- The shortest decimal of a number that is not zero. -/
def shortest (x : Binary64) : Scientific :=
  shortestFrom x (leadingPower (ratio x.significand x.exponent 0)) 17 1

/-! ## The text -/

/-- The powers of ten written positionally: those from `lowest` to `highest`. -/
structure NumberStyle where
  lowest : Int
  highest : Int
  exponentWidth : Nat

/-- Numbers from 0.00001 up to 10 ^ 16 are written positionally; an exponent has a sign and at
least two digits. -/
def numberStyle : NumberStyle := ⟨-5, 15, 2⟩

/-- The text of a decimal number. -/
def Scientific.write (style : NumberStyle) (s : Scientific) : List Char :=
  if style.lowest ≤ s.power ∧ s.power ≤ style.highest then
    if 0 ≤ s.power then
      let whole := s.power.toNat + 1
      let tail := s.digits.drop whole
      s.digits.take whole ++ List.replicate (whole - s.digits.length) '0' ++
        '.' :: (if tail.isEmpty then ['0'] else tail)
    else '0' :: '.' :: List.replicate (s.power.natAbs - 1) '0' ++ s.digits
  else
    let tail := s.digits.drop 1
    let digits := Nat.toDigits 10 s.power.natAbs
    s.digits.take 1 ++ (if tail.isEmpty then [] else '.' :: tail) ++
      'e' :: (if s.power < 0 then '-' else '+') ::
        List.replicate (style.exponentWidth - digits.length) '0' ++ digits

/-- The text of a number: its shortest decimal, with a point or an exponent in it always. -/
def write (x : Binary64) : List Char :=
  let absolute := if x.significand = 0 then ['0', '.', '0'] else x.shortest.write numberStyle
  if x.isNegative then '-' :: absolute else absolute

end Binary64

end RelationalAlgebra
