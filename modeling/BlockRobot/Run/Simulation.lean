import BlockRobot.Run.Goal
import BlockRobot.Run.Progress

/-!
# Simulated runs

A simulation runs a program to its end in one go and rolls the world back. It ends because every
action takes a step, and steps are limited.
-/

namespace BlockRobot

/-- What a run leaves behind when it ends: its actions, why it failed, and the last machine and
world. -/
structure Trace where
  actions : List Action
  failure : Option Failure
  machine : Machine
  world : World

def Machine.run (program : Program) (m : Machine) (w : World) : Trace :=
  match _h : m.advance program w with
  | (.acted a, m', w') =>
    let rest := Machine.run program m' w'
    { rest with actions := a :: rest.actions }
  | (.exhausted, m', w') => ⟨[], none, m', w'⟩
  | (.failed f, m', w') => ⟨[], some f, m', w'⟩
termination_by m.limits.maxSteps - m.steps
decreasing_by
  obtain ⟨hl, hlt, hle⟩ := Machine.advance_acted _h
  rw [hl]
  omega

/-- The report on a simulated run. An action that failed is the last of the actions. -/
structure Simulation where
  actions : List Action
  outcome : Outcome
  used : KindSet
  failure : Option RunError
  deriving DecidableEq, Repr

namespace Simulation

def succeeded (s : Simulation) : Bool := s.failure.isNone

def ofTrace (evaluator : Evaluator) (t : Trace) : Simulation :=
  match t.failure with
  | none => ⟨t.actions, evaluator t.world t.machine.used, t.machine.used, none⟩
  | some f =>
    ⟨t.actions ++ f.action.toList, ⟨false, f.error.message⟩, t.machine.used, some f.error⟩

/-- Runs a program in a world, and gives the world back rolled back. -/
def run (evaluator : Evaluator) (limits : Limits) (program : Program) (w : World) :
    Simulation × World :=
  w.trial fun w =>
    let trace := (Machine.new program limits).run program w
    (ofTrace evaluator trace, trace.world)

def toJson (s : Simulation) : Json.Value :=
  .obj [("actions", .arr (s.actions.map Action.toJson)), ("outcome", s.outcome.toJson),
    ("used", Tree.kinds s.used),
    ("failure", match s.failure with
      | some e => e.toJson
      | none => .null)]

end Simulation

end BlockRobot
