/-!
# Timers

Timers are numbered from 1 on as they are asked for, and wait in that order until they are taken or
cancelled.
-/

namespace BlockRobot

/-- A timer and its delay in milliseconds. -/
structure Timer where
  id : Nat
  delay : Nat
  deriving DecidableEq, Repr

/-- `issued` is the number of the latest timer. -/
structure Timers where
  issued : Nat
  waiting : List Timer
  deriving DecidableEq, Repr

namespace Timers

def empty : Timers := ⟨0, []⟩

def isIdle (t : Timers) : Bool := t.waiting.isEmpty

def schedule (t : Timers) (delay : Nat) : Nat × Timers :=
  (t.issued + 1, ⟨t.issued + 1, t.waiting ++ [⟨t.issued + 1, delay⟩]⟩)

def cancel (t : Timers) (id : Nat) : Timers := { t with waiting := t.waiting.filter (·.id != id) }

/-- Takes the timer that has waited longest. -/
def next? (t : Timers) : Option (Timer × Timers) :=
  match t.waiting with
  | [] => none
  | timer :: rest => some (timer, { t with waiting := rest })

end Timers

end BlockRobot
