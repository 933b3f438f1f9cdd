/-!
# Decimals

A decimal is a sign, a natural number and a power of ten. This module reads decimals and whole
numbers from text, and rounds a decimal to the nearest double.
-/

namespace BlockRobot

/-- The number `± mantissa · 10 ^ exponent`. -/
structure Decimal where
  negative : Bool
  mantissa : Nat
  exponent : Int
  deriving DecidableEq, Repr

namespace Decimal

def digitCount (n : Nat) : Nat := (Nat.toDigits 10 n).length

def ofDigits (n : Nat) (cs : List Char) : Nat :=
  cs.foldl (fun acc c => acc * 10 + (c.toNat - 48)) n

/-- The nearest double. Past the range of doubles the result is infinite, or a zero. -/
def toFloat (d : Decimal) : Float :=
  let size := d.exponent + digitCount d.mantissa
  let magnitude : Float :=
    if d.mantissa = 0 then 0
    else if 310 < size then 1 / 0
    else if size < -330 then 0
    else if d.exponent < 0 then Float.ofScientific d.mantissa true d.exponent.natAbs
    else Float.ofScientific d.mantissa false d.exponent.natAbs
  if d.negative then -magnitude else magnitude

def splitSign : List Char → Bool × List Char
  | '-' :: cs => (true, cs)
  | '+' :: cs => (false, cs)
  | cs => (false, cs)

/-- The exponent after the digits of a decimal: nothing, or a mark, a sign and digits. -/
def exponentOf? : List Char → Option Int
  | [] => some 0
  | c :: cs =>
    if c = 'e' || c = 'E' then
      let (negative, digits) := splitSign cs
      if !digits.isEmpty && digits.all Char.isDigit then
        let n : Int := ofDigits 0 digits
        some (if negative then -n else n)
      else none
    else none

/-- Reads a sign, digits with at most one point among them, and an exponent. -/
def parse? (s : String) : Option Decimal := do
  let (negative, cs) := splitSign s.toList
  let whole := cs.takeWhile Char.isDigit
  let rest := cs.dropWhile Char.isDigit
  let (fraction, rest) := match rest with
    | '.' :: rest => (rest.takeWhile Char.isDigit, rest.dropWhile Char.isDigit)
    | rest => ([], rest)
  if whole.isEmpty && fraction.isEmpty then none
  else
    let exponent ← exponentOf? rest
    return ⟨negative, ofDigits 0 (whole ++ fraction), exponent - fraction.length⟩

/-- Reads a whole number between `low` and `high`: a sign and digits. -/
def wholeNumber? (low high : Int) (cs : List Char) : Option Int :=
  let (negative, digits) := splitSign cs
  if !digits.isEmpty && digits.all Char.isDigit then
    let n : Int := if negative then -(ofDigits 0 digits : Int) else ofDigits 0 digits
    if low ≤ n && n ≤ high then some n else none
  else none

end Decimal

end BlockRobot
