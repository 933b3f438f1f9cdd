import BlockRobot.Decimal.Basic

/-!
# The shortest decimal of a double

The doubles next to `x` bound an interval of numbers that round to `x`. `shortest` walks the decimal
grids of one digit, two digits and so on, and takes the first grid that has a point in the interval,
and on it the point nearest to `x`. All arithmetic is exact.
-/

namespace BlockRobot.Decimal

/-- A positive double as `significand · 2 ^ power`; `low` and `high` bound what rounds to it, in
quarters of a unit of the significand. -/
structure Binary where
  significand : Nat
  power : Int
  low : Nat
  high : Nat

def signBit : Nat := 1 <<< 63

/-- The bit of a significand that is not written out. -/
def leadingBit : Nat := 1 <<< 52

def Binary.ofFloat (x : Float) : Binary :=
  let bits := x.toBits.toNat % signBit
  let field := bits / leadingBit
  let fraction := bits % leadingBit
  let significand := if field = 0 then fraction else leadingBit + fraction
  -- Below a power of two the doubles lie twice as close.
  let gap := if fraction = 0 && 1 < field then 1 else 2
  ⟨significand, (max field 1 : Nat) - 1075, 4 * significand - gap, 4 * significand + 2⟩

def scaled (n : Nat) (power : Int) : Nat × Nat :=
  if power < 0 then (n, 1 <<< power.natAbs) else (n <<< power.natAbs, 1)

/-- The power of ten at or below the positive quotient `num / den`. -/
def decade (num den : Nat) : Int :=
  if den ≤ num then (digitCount (num / den) : Int) - 1
  else -(digitCount ((den + num - 1) / num - 1) : Int)

/-- The point nearest to `b` on the grid of multiples of `10 ^ exponent`, if it rounds to `b`. -/
def onGrid? (b : Binary) (exponent : Int) : Option Nat :=
  let (value, den) := scaled (4 * b.significand) (b.power - 2)
  let (low, _) := scaled b.low (b.power - 2)
  let (high, _) := scaled b.high (b.power - 2)
  let up := if exponent < 0 then Nat.pow 10 exponent.natAbs else 1
  let unit := if exponent < 0 then den else den * Nat.pow 10 exponent.natAbs
  let below := value * up / unit
  let rounds (n : Nat) : Bool :=
    if b.significand % 2 = 0 then low * up ≤ n * unit && n * unit ≤ high * up
    else low * up < n * unit && n * unit < high * up
  let lower := value * up - below * unit
  let upper := (below + 1) * unit - value * up
  match rounds below, rounds (below + 1) with
  | true, true =>
    if lower < upper || (lower = upper && below % 2 = 0) then some below else some (below + 1)
  | true, false => some below
  | false, true => some (below + 1)
  | false, false => none

def strip : Nat → Nat → Int → Nat × Int
  | 0, mantissa, exponent => (mantissa, exponent)
  | n + 1, mantissa, exponent =>
    if mantissa % 10 = 0 then strip n (mantissa / 10) (exponent + 1) else (mantissa, exponent)

/-- The shortest decimal that rounds to the finite double `x`; 17 digits always suffice. -/
def shortest (x : Float) : Decimal :=
  let negative := signBit ≤ x.toBits.toNat
  if x == 0 then ⟨negative, 0, 0⟩
  else
    let b := Binary.ofFloat x
    let (num, den) := scaled b.significand b.power
    let top := decade num den
    let found := (List.range 17).findSome? fun (n : Nat) =>
      (onGrid? b (top - n)).map fun m => (m, top - n)
    let (mantissa, exponent) := found.getD (0, 0)
    let (mantissa, exponent) := strip 17 mantissa exponent
    ⟨negative, mantissa, exponent⟩

/-- How a decimal is laid out: the magnitudes `10 ^ least` up to `10 ^ bound` are written in full,
all others with an exponent. -/
structure Layout where
  least : Int
  bound : Int
  exponentMark : String
  positiveSign : String

/-- The text of a decimal: with at least one digit after a point when written in full, and with a
single digit before the point otherwise. -/
def render (layout : Layout) (d : Decimal) : String :=
  let digits := Nat.toDigits 10 d.mantissa
  let point := d.exponent + digits.length
  let sign := if d.negative then "-" else ""
  let body :=
    if d.mantissa = 0 then "0.0"
    else if layout.least < point && point ≤ layout.bound then
      if 0 ≤ d.exponent then
        String.ofList (digits ++ List.replicate d.exponent.natAbs '0') ++ ".0"
      else if 0 < point then
        String.ofList (digits.take point.natAbs) ++ "." ++ String.ofList (digits.drop point.natAbs)
      else "0." ++ String.ofList (List.replicate point.natAbs '0' ++ digits)
    else
      let power := point - 1
      let tail := digits.drop 1
      String.ofList (digits.take 1) ++ (if tail.isEmpty then "" else "." ++ String.ofList tail) ++
        layout.exponentMark ++ (if power < 0 then "-" else layout.positiveSign) ++
        toString power.natAbs
  sign ++ body

end BlockRobot.Decimal
