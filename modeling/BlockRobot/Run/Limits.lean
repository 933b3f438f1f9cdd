import BlockRobot.Json.Decode

/-!
# Limits of a run
-/

namespace BlockRobot

open Json (Value Decoder)

/-- `maxSteps` bounds the instructions taken, `maxQueue` those waiting, and `maxRange` the rounds of
one counted loop. -/
structure Limits where
  maxSteps : Nat
  maxQueue : Nat
  maxRange : Nat
  deriving DecidableEq, Repr

/-- The limits of a live run, and the delay between two of its actions in milliseconds. -/
structure Config where
  delay : Nat
  limits : Limits
  deriving DecidableEq, Repr

namespace Limits

def standard : Limits := ⟨10000, 100000, 1000⟩

def ofJson? : Decoder Limits := fun v => do
  let fields ← Json.record ["maxSteps", "maxQueueLen", "maxRangeIterations"] v
  return ⟨← Json.defaulted "maxSteps" standard.maxSteps Json.size fields,
    ← Json.defaulted "maxQueueLen" standard.maxQueue Json.size fields,
    ← Json.defaulted "maxRangeIterations" standard.maxRange Json.size fields⟩

def toJson (l : Limits) : Value :=
  .obj [("maxSteps", .num (.int l.maxSteps)), ("maxQueueLen", .num (.int l.maxQueue)),
    ("maxRangeIterations", .num (.int l.maxRange))]

end Limits

namespace Config

def standard : Config := ⟨400, .standard⟩

def ofJson? : Decoder Config := fun v => do
  let fields ← Json.record ["stepDelayMs", "limits"] v
  return ⟨← Json.defaulted "stepDelayMs" standard.delay Json.size fields,
    ← Json.defaulted "limits" .standard Limits.ofJson? fields⟩

def toJson (c : Config) : Value :=
  .obj [("stepDelayMs", .num (.int c.delay)), ("limits", c.limits.toJson)]

end Config

end BlockRobot
