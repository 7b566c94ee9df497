/-!
# Double-precision numbers

A finite double is a sign and a magnitude `units * 2 ^ scale`. `Binary64.nearest` rounds a quotient
of natural numbers to the nearest double, a tie to the even one; the product and the quotient of
two doubles are the exact ones, rounded so.
-/

namespace BrokerClient.Number

/-- A finite double. `magnitude` is its bit pattern without the sign bit, so that magnitudes are
ordered as absolute values are. -/
structure Binary64 where
  negative : Bool
  magnitude : Nat
  deriving DecidableEq, Repr, Inhabited

namespace Binary64

/-- The weight of the bit above the fraction. -/
def hidden : Nat := 1 <<< 52

def zero : Binary64 := ⟨false, 0⟩

def isZero (x : Binary64) : Bool := x.magnitude = 0

/-- The significand, counted in units of the last place. -/
def units (x : Binary64) : Nat :=
  if x.magnitude < hidden then x.magnitude else x.magnitude % hidden + hidden

/-- The exponent of the last place, shifted by 1074 so that it is a natural number. -/
def place (x : Binary64) : Nat := x.magnitude / hidden - 1

/-- The least magnitude that is no finite double's. -/
def overflow : Nat := 2047 * hidden

/-- The place whose unit gives `num / den` a significand of 53 bits, or the lowest place. -/
def placeOf (num den : Nat) : Nat :=
  let guess := num.log2 + 1074 - den.log2 - 52
  if guess = 0 then 0
  else if num <<< 1074 < den <<< (guess + 52) then guess - 1
  else guess

/-- The double nearest to `num / den`, or none where that is beyond the largest one. -/
def nearest (num den : Nat) : Option Binary64 :=
  if num = 0 then some zero
  else
    let place := placeOf num den
    let n := num <<< 1074
    let d := den <<< place
    let q := n / d
    let r := n % d
    let units := if 2 * r < d ∨ (2 * r = d ∧ q % 2 = 0) then q else q + 1
    let magnitude := place * hidden + units
    if magnitude < overflow then some ⟨false, magnitude⟩ else none

/-- The absolute value as a quotient: numerator and denominator. -/
def ratio (x : Binary64) : Nat × Nat := (x.units <<< x.place, 1 <<< 1074)

/-- The double nearest to the product of the absolute values. -/
def mul (x y : Binary64) : Option Binary64 :=
  nearest (x.ratio.1 * y.ratio.1) (x.ratio.2 * y.ratio.2)

/-- The double nearest to the quotient of the absolute values. -/
def div (x y : Binary64) : Option Binary64 :=
  nearest (x.ratio.1 * y.ratio.2) (x.ratio.2 * y.ratio.1)

/-- The double nearest to `n`. -/
def ofNat (n : Nat) : Option Binary64 := nearest n 1

/-- The double nearest to a power of ten. -/
def pow10 (n : Nat) : Option Binary64 := nearest (Nat.pow 10 n) 1

example : nearest 1 1 = some ⟨false, 1023 * hidden⟩ := by decide +kernel

example : nearest 1 (1 <<< 1074) = some ⟨false, 1⟩ := by decide +kernel

end Binary64

end BrokerClient.Number
