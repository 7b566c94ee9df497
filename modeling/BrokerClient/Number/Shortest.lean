import BrokerClient.Number.Binary64

/-!
# The shortest decimal of a double

Of the decimals that read back as a double, the one with the fewest digits, and of those the one
nearest to it. `Binary64.text` writes it with a point where the exponent is small, and in
scientific form elsewhere.
-/

namespace BrokerClient.Number

/-- `digits` after a point, times `10 ^ point`; the first digit is not zero. -/
structure Decimal where
  digits : List Char
  point : Int
  deriving DecidableEq, Repr

namespace Binary64

/-- The reals that read as one double, in quarters of its last place over a common denominator:
`low` to `high`, the ends included if `closed`; `mid` is the double itself. -/
structure Interval where
  low : Nat
  mid : Nat
  high : Nat
  den : Nat
  closed : Bool
  deriving Repr

/-- The reals that round to `x`. Below a power of two the neighbour is half as far away. -/
def interval (x : Binary64) : Interval :=
  let m := x.units
  let gap := if m = hidden ∧ 0 < x.place then 1 else 2
  let s := 1 <<< x.place
  ⟨(4 * m - gap) * s, 4 * m * s, (4 * m + 2) * s, 4 <<< 1074, m % 2 = 0⟩

/-- The number of decimal digits of `n`. -/
def digitCount (n : Nat) : Nat := (Nat.toDigits 10 n).length

/-- The exponent `e` with `10 ^ e ≤ num / den < 10 ^ (e + 1)`. -/
def exponent10 (num den : Nat) : Int :=
  if den ≤ num then (digitCount (num / den) : Int) - 1
  else
    let n := digitCount (den / num)
    if den ≤ num * Nat.pow 10 (n - 1) then -((n : Int) - 1) else -(n : Int)

/-- `d * 10 ^ e`, over the interval's denominator when `e` is negative: both sides of a comparison
with `bound` are scaled to whole numbers. -/
def scaled (i : Interval) (d : Nat) (e : Int) (bound : Nat) : Nat × Nat :=
  if 0 ≤ e then (d * Nat.pow 10 e.toNat * i.den, bound)
  else (d * i.den, bound * Nat.pow 10 (-e).toNat)

/-- Whether `d * 10 ^ e` reads as the double. -/
def Interval.holds (i : Interval) (d : Nat) (e : Int) : Bool :=
  let low := scaled i d e i.low
  let high := scaled i d e i.high
  if i.closed then low.2 ≤ low.1 && high.1 ≤ high.2 else low.2 < low.1 && high.1 < high.2

/-- The better of the two grid points around the double on the grid of `10 ^ e`, if either reads
as it. -/
def onGrid (i : Interval) (e : Int) : Option Nat :=
  let (unit, mid) := scaled i 1 e i.mid
  let d := mid / unit
  match i.holds d e, i.holds (d + 1) e with
  | true, false => some d
  | false, true => some (d + 1)
  | false, false => none
  | true, true =>
    let below := mid - d * unit
    let above := (d + 1) * unit - mid
    if below < above ∨ (below = above ∧ d % 2 = 0) then some d else some (d + 1)

/-- The first grid that holds a point, from one digit on to `17`. -/
def search (i : Interval) (top : Int) : Nat → Nat → Option (Nat × Int)
  | 0, _ => none
  | fuel + 1, n =>
    let e := top - n
    match onGrid i e with
    | some d => some (d, e)
    | none => search i top fuel (n + 1)

/-- The shortest decimal of a positive double. -/
def shortest (x : Binary64) : Decimal :=
  let i := x.interval
  match search i (exponent10 i.mid i.den + 1) 17 1 with
  | none => ⟨[], 0⟩
  | some (d, e) =>
    let digits := Nat.toDigits 10 d
    ⟨(digits.reverse.dropWhile (· = '0')).reverse, e + digits.length⟩

/-- The point may stand up to sixteen places right of the first digit and four places left of it;
beyond that the scientific form is written. -/
def Decimal.chars (d : Decimal) : List Char :=
  let n := d.digits.length
  if -4 ≤ d.point ∧ d.point ≤ 16 then
    if d.point ≤ 0 then
      '0' :: '.' :: List.replicate (-d.point).toNat '0' ++ d.digits
    else if d.point.toNat < n then
      d.digits.take d.point.toNat ++ '.' :: d.digits.drop d.point.toNat
    else
      d.digits ++ List.replicate (d.point.toNat - n) '0' ++ ['.', '0']
  else
    let e := d.point - 1
    let mantissa := match d.digits with
      | [] => []
      | [c] => [c]
      | c :: rest => c :: '.' :: rest
    mantissa ++ 'e' :: (if 0 ≤ e then '+' else '-') :: Nat.toDigits 10 e.natAbs

/-- The text of a double. -/
def chars (x : Binary64) : List Char :=
  let body := if x.isZero then ['0', '.', '0'] else Decimal.chars x.shortest
  if x.negative then '-' :: body else body

def text (x : Binary64) : String := String.ofList x.chars

end Binary64

end BrokerClient.Number
