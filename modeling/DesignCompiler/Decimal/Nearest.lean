/-!
# The nearest double

A positive double is `m * 2 ^ q` with `m < 2 ^ 53` and `-1074 ≤ q`. The double nearest to a fraction
has the least `q` for which `m` is small enough, and `m` is the quotient rounded to the nearest
number, to the even one of two. All of it is exact arithmetic on natural numbers.
-/

namespace DesignCompiler.Decimal

/-- The quotient of two numbers rounded to the nearest number, a tie to the even one. -/
def roundedQuotient (numerator denominator : Nat) : Nat :=
  let quotient := numerator / denominator
  let twice := 2 * (numerator % denominator)
  if denominator < twice || (twice == denominator && quotient % 2 == 1) then quotient + 1
  else quotient

/-- The power of two that the last bit of the nearest double stands for, counted from `-1074`. -/
def lastBit (numerator denominator : Nat) : Nat :=
  let place := numerator.log2 + 1022 - denominator.log2
  if numerator <<< 1074 < denominator <<< (place + 52) then place - 1 else place

/-- The bits of the double nearest to a positive fraction. Exponent and fraction of the format lie
    next to each other, so a carry out of the fraction ends up in the exponent. -/
def nearestBits (numerator denominator : Nat) : Nat :=
  let place := lastBit numerator denominator
  let bits := place <<< 52 + roundedQuotient (numerator <<< 1074) (denominator <<< place)
  min bits 0x7FF0000000000000

/-- The double nearest to `coefficient * 10 ^ power`, where the coefficient has `digits` digits.
    Powers so large or small that the answer is infinite or zero are settled from the number of
    digits alone. -/
def nearestFloat (coefficient : Nat) (digits : Nat) (power : Int) : Float :=
  if coefficient == 0 then 0.0
  else if power + digits > 310 then 1.0 / 0.0
  else if power + digits < -330 then 0.0
  else
    let bits := nearestBits (coefficient * Nat.pow 10 power.toNat) (Nat.pow 10 (-power).toNat)
    Float.ofBits (UInt64.ofNat bits)

end DesignCompiler.Decimal
