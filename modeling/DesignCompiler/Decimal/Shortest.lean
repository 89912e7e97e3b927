/-!
# The shortest decimal that reads back

A positive double is `m * 2 ^ q`, and every real number in an interval around it rounds to it. For
each number of digits, one, two, and so on, the two multiples of the unit beside the double are
tried: the first grid with a point in the interval gives the shortest decimals that read back, and
of two the nearer is taken, a tie going to the larger. All of it is exact arithmetic on natural
numbers.
-/

namespace DesignCompiler.Decimal

/-- A positive double and the bounds of the reals that round to it, over one denominator.
    The bounds round to it themselves when `closed`. -/
structure Neighbourhood where
  low : Nat
  value : Nat
  high : Nat
  denominator : Nat
  closed : Bool

/-- A decimal `coefficient * 10 ^ exponent`. -/
structure Scaled where
  coefficient : Nat
  exponent : Int

/-- The reals that round to the double with these bits, its sign left out. Below a power of two the
    next double is only half as far away as above it. -/
def neighbourhood (bits : Nat) : Neighbourhood :=
  let biased := bits >>> 52 % 0x800
  let fraction := bits % 0x10000000000000
  let significand := if biased == 0 then fraction else 0x10000000000000 + fraction
  let power : Int := (if biased == 0 then 1 else biased : Nat) - 1077
  let below := if fraction == 0 && biased > 1 then 1 else 2
  let factor := 1 <<< power.toNat
  { low := (4 * significand - below) * factor
    value := 4 * significand * factor
    high := (4 * significand + 2) * factor
    denominator := 1 <<< (-power).toNat
    closed := significand % 2 == 0 }

/-- How many decimal digits a number has; none for zero. -/
def digitCount (n : Nat) : Nat := if n == 0 then 0 else (Nat.toDigits 10 n).length

/-- The `k` with `10 ^ (k - 1) ≤ value < 10 ^ k`. -/
def Neighbourhood.magnitude (x : Neighbourhood) : Int :=
  if x.denominator ≤ x.value then digitCount (x.value / x.denominator)
  else 1 - (digitCount ((x.denominator + x.value - 1) / x.value - 1) : Int)

/-- The nearer point of the grid `10 ^ exponent` that rounds to the double, if one of the two
    neighbours does. -/
def Neighbourhood.onGrid? (x : Neighbourhood) (exponent : Int) : Option Scaled :=
  let scale := Nat.pow 10 (-exponent).toNat
  let unit := x.denominator * Nat.pow 10 exponent.toNat
  let value := x.value * scale
  let inside (point : Nat) : Bool :=
    if x.closed then x.low * scale ≤ point && point ≤ x.high * scale
    else x.low * scale < point && point < x.high * scale
  let floor := value / unit
  let down := floor * unit
  let up := (floor + 1) * unit
  if inside down && (!inside up || value - down < up - value) then some ⟨floor, exponent⟩
  else if inside up then some ⟨floor + 1, exponent⟩
  else none

/-- A decimal without trailing zeros in its coefficient, as long as `fuel` allows. -/
def Scaled.normalize : Nat → Scaled → Scaled
  | 0, d => d
  | fuel + 1, d =>
    if d.coefficient != 0 && d.coefficient % 10 == 0 then
      Scaled.normalize fuel ⟨d.coefficient / 10, d.exponent + 1⟩
    else d

/-- The shortest decimal that rounds to the positive double with these bits; seventeen digits
    always suffice. -/
def shortest (bits : Nat) : Scaled :=
  let x := neighbourhood bits
  let magnitude := x.magnitude
  match (List.range 17).findSome? fun n => x.onGrid? (magnitude - (n + 1 : Nat)) with
  | some decimal => decimal.normalize 20
  | none => ⟨0, 0⟩

/-! ## Positional notation

Numbers are written with the fewest digits that read back, always positionally, never with an
exponent and without a fraction when it would be zero. Minus zero keeps its sign. -/

/-- The positional notation of a decimal. -/
def Scaled.positional (d : Scaled) : List Char :=
  let digits := Nat.toDigits 10 d.coefficient
  if 0 ≤ d.exponent then digits ++ List.replicate d.exponent.toNat '0'
  else
    let point : Int := digits.length + d.exponent
    if 0 < point then digits.take point.toNat ++ '.' :: digits.drop point.toNat
    else '0' :: '.' :: List.replicate (-point).toNat '0' ++ digits

/-- The text of a double. -/
def text (x : Float) : String :=
  let bits := x.toBits.toNat
  let magnitude := bits % 0x8000000000000000
  let sign := if bits ≥ 0x8000000000000000 then ['-'] else []
  let infinite := 0x7FF0000000000000
  if magnitude > infinite then "NaN"
  else if magnitude == infinite then String.ofList (sign ++ ['i', 'n', 'f'])
  else if magnitude == 0 then String.ofList (sign ++ ['0'])
  else String.ofList (sign ++ (shortest magnitude).positional)

end DesignCompiler.Decimal
