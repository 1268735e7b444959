/-! # Binary64 numbers

A binary64 number is its 64-bit word: a sign, an eleven-bit exponent field and a 52-bit fraction.
No machine arithmetic is involved; a finite number stands for an exact rational, and every operation
is exact arithmetic followed by one rounding:

* `Binary64.view`: what a word stands for, an exact rational, an infinity or a NaN with its payload.
* `Binary64.nearest`: the number nearest to a ratio, a tie to the even significand, an infinity from
  `2 ^ 1024` less half a unit on.
* `Binary64.sum`, `Binary64.product`: the exact result of the finite operands, rounded once.
* `Binary64.roundPlaces`: the nearest multiple of a power of ten, a tie to the even multiple.
-/

namespace Compliance

/-- A binary64 number, kept as its bit pattern. -/
structure Binary64 where
  word : UInt64
deriving DecidableEq, Repr, Inhabited

/-- The quotient of two naturals rounded to the nearest natural, a tie to the even one. -/
def divNearestEven (num den : Nat) : Nat :=
  let q := num / den
  let r := num % den
  if 2 * r < den then q
  else if den < 2 * r then q + 1
  else if q % 2 = 0 then q else q + 1

/-- The power `2 ^ e` of an integer exponent as a ratio of naturals. -/
def powTwoRatio (e : Int) : Nat × Nat :=
  if 0 ≤ e then (Nat.pow 2 e.toNat, 1) else (1, Nat.pow 2 (-e).toNat)

namespace Binary64

/-- What a word stands for. -/
inductive View where
  | finite (value : Rat)
  | infinite (negative : Bool)
  | nan (payload : Nat)
deriving DecidableEq

/-- The sign bit is set. -/
def negative (x : Binary64) : Bool := decide (Nat.pow 2 63 ≤ x.word.toNat)

/-- The eleven bits of the exponent field. -/
def exponentField (x : Binary64) : Nat := x.word.toNat / Nat.pow 2 52 % Nat.pow 2 11

/-- The 52 bits below the exponent field. -/
def fraction (x : Binary64) : Nat := x.word.toNat % Nat.pow 2 52

/-- The integer significand of a finite number: the hidden bit is left out at exponent field 0. -/
def significand (x : Binary64) : Nat :=
  if x.exponentField = 0 then x.fraction else Nat.pow 2 52 + x.fraction

/-- The exponent of the unit of the significand. -/
def exponent (x : Binary64) : Int := (max x.exponentField 1 : Nat) - (1075 : Int)

/-- Neither an infinity nor a NaN. -/
def isFinite (x : Binary64) : Bool := x.exponentField != 2047

/-- A NaN: the largest exponent field over a nonzero fraction. -/
def isNaN (x : Binary64) : Bool := x.exponentField == 2047 && x.fraction != 0

/-- The value is zero, of either sign. -/
def isZero (x : Binary64) : Bool := x.exponentField == 0 && x.fraction == 0

/-- The exact value of a finite number. -/
def toRat (x : Binary64) : Rat :=
  let (num, den) := powTwoRatio x.exponent
  let magnitude := mkRat (x.significand * num : Nat) den
  if x.negative then -magnitude else magnitude

/-- What the word of `x` stands for; both zeros are the rational zero. -/
def view (x : Binary64) : View :=
  if x.exponentField = 2047 then
    if x.fraction = 0 then .infinite x.negative else .nan x.fraction
  else .finite x.toRat

/-- The word with the given sign above the 63 bits of a magnitude. -/
def ofFields (negative : Bool) (magnitude : Nat) : Binary64 :=
  ⟨UInt64.ofNat ((if negative then Nat.pow 2 63 else 0) + magnitude)⟩

def zero (negative : Bool) : Binary64 := ofFields negative 0

def infinity (negative : Bool) : Binary64 := ofFields negative (2047 * Nat.pow 2 52)

/-- The quiet NaN with the given payload. -/
def nan (payload : Nat) : Binary64 :=
  ofFields false (2047 * Nat.pow 2 52 + Nat.pow 2 51 + payload % Nat.pow 2 51)

/-- The significand `m` (at most `2 ^ 53`) in units of `2 ^ q`. A carry out of the significand
moves into the exponent field by itself; past the largest exponent the result is infinite. -/
def assemble (negative : Bool) (m : Nat) (q : Int) : Binary64 :=
  ofFields negative (min ((q + 1074).toNat * Nat.pow 2 52 + m) (2047 * Nat.pow 2 52))

/-- **The number nearest to `num / den`** of the given sign, a tie to the even significand. -/
def nearest (negative : Bool) (num den : Nat) : Binary64 :=
  if num = 0 ∨ den = 0 then zero negative
  else
    -- `2 ^ (k - 1) < num / den < 2 ^ (k + 1)`, and the leading bit is at `k` or one below
    let k : Int := (num.log2 : Int) - den.log2
    let (up, down) := powTwoRatio k
    let lead := if num * down < den * up then k - 1 else k
    let q := max (lead - 52) (-1074)
    let (qn, qd) := powTwoRatio q
    assemble negative (divNearestEven (num * qd) (den * qn)) q

/-- The number nearest to a rational; a zero is positive. -/
def ofRat (r : Rat) : Binary64 := nearest (decide (r.num < 0)) r.num.natAbs r.den

/-- The sum of two numbers that are not NaNs, of one sign if both are infinite. -/
def sum (x y : Binary64) : Binary64 :=
  if !x.isFinite then x
  else if !y.isFinite then y
  else ofRat (x.toRat + y.toRat)

/-- A number times a positive natural. -/
def product (x : Binary64) (n : Nat) : Binary64 :=
  if !x.isFinite then x
  else nearest x.negative (x.toRat.num.natAbs * n) x.toRat.den

/-- The number with the sign turned. -/
def negate (x : Binary64) : Binary64 := ofFields (!x.negative) (x.word.toNat % Nat.pow 2 63)

/-- The multiple of `10 ^ -places` nearest to `x`, a tie to the even multiple. -/
def roundPlaces (x : Binary64) (places : Nat) : Binary64 :=
  if !x.isFinite then x
  else
    let scaled := divNearestEven (x.toRat.num.natAbs * Nat.pow 10 places) x.toRat.den
    nearest x.negative scaled (Nat.pow 10 places)

end Binary64

end Compliance
