import BlockRobot.Json.Fault
import BlockRobot.Json.Value

/-!
# Reading numerals

A numeral is taken one character at a time. Its digits are kept as a whole number of 64 bits and a
power of ten: once the next digit does not fit, the digits that follow only move the power. The
double is then one product or quotient with a power of ten, so it need not be the nearest one.
-/

namespace BlockRobot.Json

/-- The largest whole number that the digits of a numeral may add up to. -/
def maxSignificand : Nat := 18446744073709551615

/-- The largest exponent that is read to its end. -/
def maxExponent : Nat := 2147483647

/-! ## Scaling by powers of ten -/

/-- The largest power of ten that is a double has this exponent. -/
def maxTenPower : Nat := 308

def tenPower (n : Nat) : Float := Float.ofScientific 1 false n

/-- Divides by `10 ^ n`, and by the largest power of ten first as long as `n` is beyond it. -/
def scaleDown (x : Float) (n : Nat) : Float :=
  if n ≤ maxTenPower then x / tenPower n
  else if x == 0 then x
  else scaleDown (x / tenPower maxTenPower) (n - maxTenPower)
termination_by n
decreasing_by simp_all only [maxTenPower]; omega

/-- Multiplies by `10 ^ n`; nothing if the result is infinite. -/
def scaleUp? (x : Float) (n : Nat) : Option Float :=
  if n ≤ maxTenPower then
    let y := x * tenPower n
    if y.isInf then none else some y
  else if x == 0 then some x
  else none

/-! ## Numerals -/

inductive Numeral.Phase where
  | sign
  | zero
  | whole
  | point
  | fraction
  | mark
  | markSign
  | exponent

/-- The part of a numeral read so far: `± significand · 10 ^ scale`, and the exponent after its mark.
The part before or after the point is `full` when one of its digits did not fit. -/
structure Numeral where
  negative : Bool
  phase : Numeral.Phase
  significand : Nat
  scale : Int
  full : Bool
  exponentNegative : Bool
  exponent : Nat

namespace Numeral

def start (c : Char) : Numeral :=
  if c = '-' then ⟨true, .sign, 0, 0, false, false, 0⟩
  else ⟨false, if c = '0' then .zero else .whole, c.toNat - 48, 0, false, false, 0⟩

inductive Next where
  | more (n : Numeral)
  /-- The character does not belong to the numeral, which is complete without it. -/
  | stop
  | fault (f : Fault)

/-- The significand with one more digit, if there is room for it. -/
def fit? (n : Numeral) (c : Char) : Option Nat :=
  let significand := n.significand * 10 + (c.toNat - 48)
  if n.full || maxSignificand < significand then none else some significand

def addWhole (n : Numeral) (c : Char) : Numeral :=
  match n.fit? c with
  | some significand => { n with phase := .whole, significand := significand }
  | none => { n with phase := .whole, scale := n.scale + 1, full := true }

def addFraction (n : Numeral) (c : Char) : Numeral :=
  match n.fit? c with
  | some significand => { n with phase := .fraction, significand := significand, scale := n.scale - 1 }
  | none => { n with phase := .fraction, full := true }

def addExponent (strict : Bool) (n : Numeral) (c : Char) : Next :=
  let e := n.exponent * 10 + (c.toNat - 48)
  if strict && maxExponent < e && n.significand ≠ 0 && !n.exponentNegative then
    .fault .numberOutOfRange
  else .more { n with phase := .exponent, exponent := e }

def push (strict : Bool) (n : Numeral) (c : Char) : Next :=
  let isMark := c = 'e' || c = 'E'
  match n.phase with
  | .sign =>
    if c = '0' then .more { n with phase := .zero }
    else if c.isDigit then .more (n.addWhole c)
    else .fault .invalidNumber
  | .zero =>
    if c.isDigit then .fault .invalidNumber
    else if c = '.' then .more { n with phase := .point }
    else if isMark then .more { n with phase := .mark }
    else .stop
  | .whole =>
    if c.isDigit then .more (n.addWhole c)
    else if c = '.' then .more { n with phase := .point, full := false }
    else if isMark then .more { n with phase := .mark }
    else .stop
  | .point => if c.isDigit then .more (n.addFraction c) else .fault .invalidNumber
  | .fraction =>
    if c.isDigit then .more (n.addFraction c)
    else if isMark then .more { n with phase := .mark }
    else .stop
  | .mark =>
    if c = '+' then .more { n with phase := .markSign }
    else if c = '-' then .more { n with phase := .markSign, exponentNegative := true }
    else if c.isDigit then n.addExponent strict c
    else .fault .invalidNumber
  | .markSign => if c.isDigit then n.addExponent strict c else .fault .invalidNumber
  | .exponent => if c.isDigit then n.addExponent strict c else .stop

def complete (n : Numeral) : Bool :=
  match n.phase with
  | .zero | .whole | .fraction | .exponent => true
  | .sign | .point | .mark | .markSign => false

def power (n : Numeral) : Int :=
  n.scale + if n.exponentNegative then -(n.exponent : Int) else n.exponent

/-- The numeral as a double; nothing if that is infinite. -/
def toFloat? (n : Numeral) : Option Float :=
  let x := n.significand.toUInt64.toFloat
  let magnitude? :=
    if n.power < 0 then some (scaleDown x n.power.natAbs) else scaleUp? x n.power.natAbs
  magnitude?.map fun y => if n.negative then -y else y

/-- An integer of 64 bits where there is neither point nor exponent, else a double. A negative zero
is a double. -/
def toNumber? (n : Numeral) : Option Number :=
  let integer? : Option Int :=
    match n.phase with
    | .zero | .whole =>
      if n.full then none
      else if !n.negative then some n.significand
      else if 0 < n.significand && n.significand ≤ 9223372036854775808 then some (-n.significand)
      else none
    | _ => none
  match integer? with
  | some i => some (.int i)
  | none => n.toFloat?.map .real

end Numeral

end BlockRobot.Json
