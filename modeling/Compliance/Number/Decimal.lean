import Compliance.Number.Binary64

/-! # Binary64 numbers in decimal

* `Decimal.nearest`: the binary64 number nearest to a decimal, also for exponents of any size.
* `Decimal.read?`: an optional sign, digits with at most one point, an optional exponent; digits may
  stand on one side of the point only.
* `Decimal.shortest`: the fewest digits that read back as the same number and, of those, the ones
  nearest to it.
* `Binary64.text`: the layout of those digits: positional for decimal exponents from -4 to 15 and
  with at least one digit after the point, else scientific with two exponent digits or more.
-/

namespace Compliance

/-- The decimal `coefficient * 10 ^ exponent` with a sign. -/
structure Decimal where
  negative : Bool
  coefficient : Nat
  exponent : Int
deriving DecidableEq, Repr

namespace Decimal

/-- The decimal digits of a natural, most significant first; zero has the digit `0`. -/
def digits (n : Nat) : List Char := Nat.toDigits 10 n

/-- The natural that a list of decimal digits writes. -/
def valueOf (ds : List Char) : Nat := ds.foldl (fun n c => 10 * n + (c.toNat - '0'.toNat)) 0

/-- The binary64 number nearest to a decimal. A decimal far outside the finite range is decided by
its magnitude alone, so that no power of ten beyond that range is ever computed. -/
def nearest (d : Decimal) : Binary64 :=
  if d.coefficient = 0 then Binary64.zero d.negative
  else
    let magnitude : Int := (digits d.coefficient).length + d.exponent
    if 320 < magnitude then Binary64.infinity d.negative
    else if magnitude < -340 then Binary64.zero d.negative
    else if 0 ≤ d.exponent then
      Binary64.nearest d.negative (d.coefficient * Nat.pow 10 d.exponent.toNat) 1
    else Binary64.nearest d.negative d.coefficient (Nat.pow 10 (-d.exponent).toNat)

/-- A sign in front of a text, and the text behind it. -/
def splitSign : List Char → Bool × List Char
  | '-' :: r => (true, r)
  | '+' :: r => (false, r)
  | r => (false, r)

/-- The exponent part of a decimal: nothing, or `e` with an optionally signed number. -/
def readExponent? : List Char → Option Int
  | [] => some 0
  | c :: r =>
    if c = 'e' ∨ c = 'E' then
      let (negative, ds) := splitSign r
      if ds.isEmpty || !ds.all Char.isDigit then none
      else some (if negative then -(valueOf ds : Int) else valueOf ds)
    else none

/-- Reads a decimal that fills the whole text. -/
def read? (cs : List Char) : Option Decimal :=
  let (negative, body) := splitSign cs
  let whole := body.takeWhile Char.isDigit
  let rest := body.dropWhile Char.isDigit
  let (places, rest) :=
    match rest with
    | '.' :: r => (r.takeWhile Char.isDigit, r.dropWhile Char.isDigit)
    | r => ([], r)
  if whole.isEmpty && places.isEmpty then none
  else
    (readExponent? rest).map fun e =>
      ⟨negative, valueOf (whole ++ places), e - places.length⟩

/-- The number of digits in front of the point of the positive ratio `num / den`; not positive for a
ratio below one tenth. -/
def leadingPlace (num den : Nat) : Int :=
  if den ≤ num then (digits (num / den)).length
  else
    -- `10 ^ j` lifts the ratio to at least 1 and `10 ^ (j - 1)` does not
    let j := (digits (den / num)).length
    if den ≤ num * Nat.pow 10 (j - 1) then 2 - (j : Int) else 1 - (j : Int)

/-- A number and the ends of the interval of reals that round to it, all in units of a common
denominator `den`; the ends themselves round to it iff `closed`. -/
structure Interval where
  value : Nat
  low : Nat
  high : Nat
  den : Nat
  closed : Bool

/-- The rounding interval of a positive finite number. The interval is shorter below a power of two,
where the next number is nearer. -/
def Interval.of (x : Binary64) : Interval :=
  let (num, den) := powTwoRatio x.exponent
  let below := if x.fraction = 0 ∧ 1 < x.exponentField then 1 else 2
  ⟨4 * x.significand * num, (4 * x.significand - below) * num, (4 * x.significand + 2) * num,
    4 * den, x.significand % 2 == 0⟩

/-- The candidate `c` on the grid of unit `unitNum / unitDen` reads back as the number. -/
def Interval.contains (i : Interval) (c unitNum unitDen : Nat) : Bool :=
  let point := c * unitNum * i.den
  if i.closed then i.low * unitDen ≤ point && point ≤ i.high * unitDen
  else i.low * unitDen < point && point < i.high * unitDen

/-- The grid point next to the number that reads back, on the grid with `n` digits in front of which
the point stands at `place`: the nearer of the two neighbours, of equally near ones the even one. -/
def Interval.onGrid? (i : Interval) (place : Int) (n : Nat) : Option (Nat × Int) :=
  let e := place - n
  let (unitNum, unitDen) :=
    if 0 ≤ e then (Nat.pow 10 e.toNat, 1) else (1, Nat.pow 10 (-e).toNat)
  let scaled := i.value * unitDen
  let unit := i.den * unitNum
  let down := scaled / unit
  let near := divNearestEven scaled unit
  let far := if near = down then down + 1 else down
  if i.contains near unitNum unitDen then some (near, e)
  else if i.contains far unitNum unitDen then some (far, e)
  else none

/-- The digits without zeros at the end, and the power of ten that they took with them. -/
def trimZeros (ds : List Char) : List Char × Nat :=
  let kept := (ds.reverse.dropWhile (· == '0')).reverse
  (kept, ds.length - kept.length)

/-- **The fewest digits that read back** as the positive finite number, and the place of the decimal
point counted from the front of the digits. Seventeen digits always read back. -/
def shortest (x : Binary64) : List Char × Int :=
  let i := Interval.of x
  let place := leadingPlace i.value i.den
  match (List.range' 1 17).findSome? (i.onGrid? place) with
  | some (c, e) =>
    let (ds, zeros) := trimZeros (digits c)
    (ds, e + zeros + ds.length)
  | none => (['0'], 1)

/-- The digits `ds` with the decimal point at `place`. -/
def layout (ds : List Char) (place : Int) : List Char :=
  if -4 < place ∧ place ≤ 16 then
    if place ≤ 0 then ['0', '.'] ++ List.replicate (-place).toNat '0' ++ ds
    else
      let n := place.toNat
      if ds.length ≤ n then ds ++ List.replicate (n - ds.length) '0' ++ ['.', '0']
      else ds.take n ++ ['.'] ++ ds.drop n
  else
    let e := place - 1
    let mark := if e < 0 then '-' else '+'
    let power := digits e.natAbs
    let power := if power.length < 2 then '0' :: power else power
    let mantissa :=
      match ds with
      | [d] => [d]
      | d :: rest => d :: '.' :: rest
      | [] => []
    mantissa ++ ['e', mark] ++ power

end Decimal

/-- The text of a number: its shortest digits in their layout, and a name for what is no number of
the line. -/
def Binary64.text (x : Binary64) : String :=
  if x.isNaN then "nan"
  else
    let magnitude :=
      if !x.isFinite then ['i', 'n', 'f']
      else if x.isZero then ['0', '.', '0']
      else
        let (ds, place) := Decimal.shortest x
        Decimal.layout ds place
    String.ofList (if x.negative then '-' :: magnitude else magnitude)

end Compliance
