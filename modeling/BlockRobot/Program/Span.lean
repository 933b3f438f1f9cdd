/-!
# Counted ranges

A counted loop runs through `first`, `first + step`, … as long as it does not pass `last`. The
operations it needs are a class, so that the count of a range of doubles and the count of a range
of exact numbers are one definition.
-/

namespace BlockRobot

/-- Numbers that a counted loop can run through. -/
class Scalar (α : Type) extends Add α, Sub α, Mul α, Div α where
  ofNat : Nat → α
  isZero : α → Bool
  isFinite : α → Bool
  less : α → α → Bool
  /-- The whole part of a number; `0` below zero. -/
  whole : α → Nat

instance : Scalar Float where
  ofNat := Float.ofNat
  isZero x := x == 0
  isFinite := Float.isFinite
  less a b := decide (a < b)
  whole x := x.toUInt64.toNat

def maxCount : Nat := 18446744073709551615

structure Span (α : Type) where
  first : α
  last : α
  step : α

namespace Span

variable {α : Type} [Scalar α]

/-- The range `1, 2, …, n`. -/
def times (n : Nat) : Span α := ⟨Scalar.ofNat 1, Scalar.ofNat n, Scalar.ofNat 1⟩

/-- How many members the range has; nothing for a step that leads nowhere. -/
def count (s : Span α) : Option Nat :=
  let zero : α := Scalar.ofNat 0
  if Scalar.isZero s.step || !Scalar.isFinite s.step then none
  else if (Scalar.less zero s.step && Scalar.less s.last s.first) ||
      (Scalar.less s.step zero && Scalar.less s.first s.last) then some 0
  else some (min (Scalar.whole ((s.last - s.first) / s.step) + 1) maxCount)

/-- The member number `i`, counted from zero. -/
def member (s : Span α) (i : Nat) : α := s.first + s.step * Scalar.ofNat i

end Span

end BlockRobot
