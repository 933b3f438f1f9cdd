import BlockRobot.Run.Goal
import BlockRobot.Run.Machine
import BlockRobot.Session.Timers

/-!
# Sessions

A session is a live run: it advances by one action each time its timer fires, and can be paused,
resumed and stopped in between. All that happens is recorded as events.
-/

namespace BlockRobot

inductive Phase where
  | idle
  | running
  | paused
  | completed (outcome : Outcome)
  | failed (reason : String)
  deriving DecidableEq, Repr

def Phase.isTerminal : Phase → Bool
  | .completed _ | .failed _ => true
  | .idle | .running | .paused => false

inductive Event where
  | started (total : Nat)
  | step (index total : Nat) (action : Action)
  | paused (index : Nat)
  | resumed (index : Nat)
  | stopped
  | finished (won : Bool) (message : String)
  | failed (reason : String) (action : Option Action)
  deriving DecidableEq, Repr

inductive ControlError where
  | alreadyRunning
  | noProgram
  | gameOver
  | finished
  | notRunning
  | notPaused
  deriving DecidableEq, Repr

def ControlError.message : ControlError → String
  | .alreadyRunning => "the program is already running"
  | .noProgram => "no program is loaded"
  | .gameOver => "the game is already over"
  | .finished => "the run has finished; stop it before starting again"
  | .notRunning => "the program is not running"
  | .notPaused => "the program is not paused"

/-- `pending` is the only timer that may advance the run; `events` are those not yet drained, the
latest first. -/
structure Session where
  world : World
  evaluator : Evaluator
  timers : Timers
  config : Config
  program : Option Program
  machine : Option Machine
  pending : Option Nat
  phase : Phase
  events : List Event

namespace Session

def new (world : World) (evaluator : Evaluator) (config : Config) : Session :=
  ⟨world, evaluator, .empty, config, none, none, none, .idle, []⟩

/-! ## Looking at a session -/

/-- The instructions taken, and the length of the queue with them. -/
def progress (s : Session) : Nat × Nat :=
  match s.machine with
  | some m => (m.cursor, m.queueLength)
  | none => (0, 0)

def isRunning (s : Session) : Bool := s.phase = .running || s.phase = .paused

def isPaused (s : Session) : Bool := s.phase = .paused

def used? (s : Session) : Option KindSet := s.machine.map Machine.used

/-! ## Timers and events -/

def emit (s : Session) (e : Event) : Session := { s with events := e :: s.events }

/-- The events since the last call, oldest first. -/
def drain (s : Session) : List Event × Session := (s.events.reverse, { s with events := [] })

def disarm (s : Session) : Session :=
  match s.pending with
  | some id => { s with timers := s.timers.cancel id, pending := none }
  | none => s

def arm (s : Session) (delay : Nat) : Session :=
  let s := s.disarm
  let (id, timers) := s.timers.schedule delay
  { s with timers := timers, pending := some id }

/-! ## Commands -/

/-- Gives the run up, in whatever phase it is. -/
def stop (s : Session) : Session :=
  let s := { s.disarm with machine := none }
  if s.phase = .idle then s else { s with phase := .idle }.emit .stopped

/-- Replaces the program. A run in progress is stopped. -/
def load (s : Session) (program : Program) : Session := { s.stop with program := some program }

def start (s : Session) : Except ControlError Session :=
  match s.phase with
  | .running | .paused => .error .alreadyRunning
  | .completed _ | .failed _ => .error .finished
  | .idle =>
    match s.program with
    | none => .error .noProgram
    | some program =>
      if s.world.gameOver then .error .gameOver
      else
        let machine := Machine.new program s.config.limits
        let s := { s with machine := some machine, phase := .running }
        .ok ((s.emit (.started machine.queueLength)).arm 0)

/-- Cancels the pending timer and keeps the place in the program. -/
def pause (s : Session) : Except ControlError Session :=
  if s.phase = .running then
    let s := { s.disarm with phase := .paused }
    .ok (s.emit (.paused s.progress.1))
  else .error .notRunning

def resume (s : Session) : Except ControlError Session :=
  if s.phase = .paused then
    let s := { s with phase := .running }
    .ok ((s.emit (.resumed s.progress.1)).arm s.config.delay)
  else .error .notPaused

/-! ## Advancing -/

def finish (s : Session) : Session :=
  let outcome := s.evaluator s.world (s.used?.getD .empty)
  { s.emit (.finished outcome.won outcome.message) with phase := .completed outcome }

def step (s : Session) : Session :=
  match s.program, s.machine with
  | some program, some machine =>
    let (stop, machine, world) := machine.advance program s.world
    let s := { s with machine := some machine, world := world }
    match stop with
    | .acted action =>
      let (index, total) := s.progress
      (s.emit (.step index total action)).arm s.config.delay
    | .exhausted => s.finish
    | .failed failure =>
      { s.emit (.failed failure.message failure.action) with phase := .failed failure.message }
  | _, _ => s

/-- Tells the session that a timer has fired. Any but the pending one is stale and ignored. -/
def onTimer (s : Session) (id : Nat) : Session :=
  if s.pending = some id then
    let s := { s with pending := none }
    if s.phase = .running then s.step else s
  else s

/-- Takes the timer that has waited longest and fires it. -/
def fire? (s : Session) : Option (Timer × Session) :=
  match s.timers.next? with
  | none => none
  | some (timer, timers) => some (timer, { s with timers := timers }.onTimer timer.id)

/-- Fires at most `n` timers, and gives the number of those fired. -/
def fireUpTo (s : Session) : Nat → Nat × Session
  | 0 => (0, s)
  | n + 1 =>
    match s.fire? with
    | none => (0, s)
    | some (_, s) =>
      let (k, s) := fireUpTo s n
      (k + 1, s)

end Session

end BlockRobot
