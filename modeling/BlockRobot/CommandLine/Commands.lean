import BlockRobot.CallGraph
import BlockRobot.CommandLine.Arguments
import BlockRobot.CommandLine.Level
import BlockRobot.CommandLine.Report
import BlockRobot.Json.Printer
import BlockRobot.Program.Lint
import BlockRobot.Program.Loader
import BlockRobot.Run.Simulation
import BlockRobot.Session.Codec
import BlockRobot.Session.Drive

/-!
# Commands

Every command reads its files, does its work and replies with text, and with errors if it failed.
How files are read is up to the caller.
-/

namespace BlockRobot.CommandLine

open Json (Value)

inductive FileError where
  | notFound
  | notADirectory
  | isADirectory
  | nameTooLong
  | nulInName
  | other (message : String)
  deriving DecidableEq, Repr

def FileError.message : FileError → String
  | .notFound => "No such file or directory (os error 2)"
  | .notADirectory => "Not a directory (os error 20)"
  | .isADirectory => "Is a directory (os error 21)"
  | .nameTooLong => "File name too long (os error 36)"
  | .nulInName => "file name contained an unexpected NUL byte"
  | .other message => message

/-- A text, and the milliseconds to wait before it is written. -/
structure Chunk where
  delay : Nat
  text : String
  deriving DecidableEq, Repr

/-- The reply to a command. `errors` goes from the general to the particular, and is empty when the
command succeeded. -/
structure Reply where
  output : List Chunk
  errors : List String
  report : Option Report
  deriving DecidableEq, Repr

namespace Reply

def failed (errors : List String) : Reply := ⟨[], errors, none⟩

def stdout (r : Reply) : String := String.join (r.output.map Chunk.text)

def exitCode (r : Reply) : Nat := if r.errors.isEmpty then 0 else 1

def ofText (text : String) (error : Option String) : Reply := ⟨[⟨0, text⟩], error.toList, none⟩

end Reply

def lines (ls : List String) : String := String.join (ls.map (· ++ "\n"))

/-! ## Reading files -/

def loadProgram (path source : String) : Except Reply Program :=
  match Program.load source with
  | .ok program => .ok program
  | .error e => .error ⟨[], ["failed to load " ++ path, e.message], some (.of path source e)⟩

def decodeFile {α : Type} (parse? : String → Option α) (path source : String) : Except Reply α :=
  match parse? source with
  | some a => .ok a
  | none => .error (.failed ["invalid JSON in " ++ path])

section

variable {m : Type → Type} [Monad m] (read : String → m (Except FileError String))

def readFile {α : Type} (path : String) (use : String → Except Reply α) : ExceptT Reply m α := do
  match ← (read path : m _) with
  | .ok source => ExceptT.mk (pure (use source))
  | .error e => throw (.failed ["failed to read " ++ path, e.message])

def readProgram (path : String) : ExceptT Reply m Program := readFile read path (loadProgram path)

def readLevel (path : String) : ExceptT Reply m Level := readFile read path (decodeFile Level.parse? path)

def readConfig (path : Option String) : ExceptT Reply m Config :=
  match path with
  | some path => readFile read path (decodeFile Config.parse? path)
  | none => pure .standard

end

/-! ## Checking a program -/

structure Finding where
  severity : Severity
  path : Option String
  message : String
  hint : Option String
  deriving DecidableEq, Repr

def severityName : Severity → String
  | .error => "error"
  | .warning => "warning"

namespace Finding

def ofWarning (w : Warning) : Finding := ⟨.warning, some w.path, w.message, none⟩

def ofIssue (i : Issue) : Finding :=
  ⟨i.problem.severity, some i.path.render, i.problem.message, i.problem.hint?⟩

def ofCall (c : CallFinding) : Finding := ⟨.warning, none, c.message, none⟩

def lines (f : Finding) : List String :=
  let first := severityName f.severity ++ ": " ++
    (match f.path with
      | some path => path ++ ": "
      | none => "") ++ f.message
  first :: (f.hint.map fun h => "  hint: " ++ h).toList

def toJson (f : Finding) : Value :=
  .obj [("severity", .str (severityName f.severity)), ("path", Tree.orNull f.path),
    ("message", .str f.message), ("hint", Tree.orNull f.hint)]

end Finding

/-- All findings about a program. Calls of undefined functions are among the issues already. -/
def findings (program : Program) : Except NameMismatch (List Finding) := do
  let graph ← CallGraph.ofProgram program
  return program.warnings.map .ofWarning ++ program.lint.map .ofIssue ++ graph.warnings.map .ofCall

def checkReply (path : String) (json : Bool) (program : Program) : Reply :=
  match findings program with
  | .error e => .failed [e.message]
  | .ok found =>
    let errors := (found.filter (·.severity == .error)).length
    let text :=
      if json then Json.pretty (.arr (found.map Finding.toJson)) ++ "\n"
      else lines (found.flatMap Finding.lines ++
        [path ++ ": " ++ toString program.blockCount ++ " block(s), " ++ toString errors ++
          " error(s), " ++ toString (found.length - errors) ++ " warning(s)"])
    .ofText text
      (if errors = 0 then none else some (path ++ " has " ++ toString errors ++ " error(s)"))

/-! ## Counting blocks -/

/-- How many statements of each kind a program has; kinds that do not occur are left out. -/
def kindCounts (program : Program) : List (Kind × Nat) :=
  let all := program.bodies.flatMap Statement.nodesOf
  (Kind.all.map fun k => (k, (all.filter (·.kind == k)).length)).filter (·.2 != 0)

def padded (tag : String) : String := tag ++ String.ofList (List.replicate (14 - tag.length) ' ')

def blocksReply (json : Bool) (program : Program) : Reply :=
  let counts := kindCounts program
  let nat (n : Nat) : Value := .num (.int n)
  let text :=
    if json then
      Json.pretty (.obj [("blockCount", nat program.blockCount), ("nodeCount", nat program.nodeCount),
        ("functionCount", nat program.functions.size), ("unrolled", Tree.kinds program.unrolled),
        ("kinds", .obj (counts.map fun c => (c.1.tag, nat c.2)))]) ++ "\n"
    else lines (
      ["blocks:    " ++ toString program.blockCount, "nodes:     " ++ toString program.nodeCount,
        "functions: " ++ toString program.functions.size] ++
      counts.map (fun c => "  " ++ padded c.1.tag ++ toString c.2) ++
      program.unrolled.toList.map fun k => "  " ++ padded k.tag ++ "unrolled")
  .ofText text none

/-! ## Running a program -/

def aligned (n : Nat) : String :=
  let digits := toString n
  String.ofList (List.replicate (4 - digits.length) ' ') ++ digits

def notSolved (o : Outcome) : Option String :=
  if o.won then none else some ("level not solved: " ++ o.message)

def verdict (o : Outcome) : String := (if o.won then "won" else "lost") ++ ": " ++ o.message

def simulateReply (json : Bool) (limits : Limits) (level : Level) (program : Program) : Reply :=
  let s := (Simulation.run level.goal limits program level.world).1
  let text :=
    if json then Json.pretty s.toJson ++ "\n"
    else lines (
      (s.actions.zipIdx 1).map (fun a => aligned a.2 ++ "  " ++ a.1.render) ++ [verdict s.outcome])
  .ofText text (notSolved s.outcome)

def eventText (json : Bool) (e : Event) : String :=
  (if json then Json.compact e.toJson else e.line) ++ "\n"

def restError : Phase → Option String
  | .completed outcome => notSolved outcome
  | .failed reason => some ("run failed: " ++ reason)
  | .idle => some "run ended in unexpected state Idle"
  | .running => some "run ended in unexpected state Running"
  | .paused => some "run ended in unexpected state Paused"

def playReply (json : Bool) (config : Config) (level : Level) (program : Program) : Reply :=
  match ((Session.new level.world level.goal config).load program).start with
  | .error e => .failed [e.message]
  | .ok session =>
    let (events, session) := session.drain
    let (stretches, last) := session.drive
    let chunks := (⟨0, events⟩ :: stretches).map fun s =>
      (⟨s.delay, String.join (s.events.map (eventText json))⟩ : Chunk)
    ⟨chunks, (restError last.phase).toList, none⟩

/-! ## All commands -/

def withMaxSteps (config : Config) (maxSteps : Option Nat) : Config :=
  { config with limits := { config.limits with maxSteps := maxSteps.getD config.limits.maxSteps } }

def withDelay (config : Config) (delay : Option Nat) : Config :=
  { config with delay := delay.getD config.delay }

def execute {m : Type → Type} [Monad m] (read : String → m (Except FileError String)) :
    Command → ExceptT Reply m Reply
  | .check path json => do return checkReply path json (← readProgram read path)
  | .blocks path json => do return blocksReply json (← readProgram read path)
  | .simulate o => do
    let program ← readProgram read o.program
    let level ← readLevel read o.level
    let config := withMaxSteps (← readConfig read o.config) o.maxSteps
    return simulateReply o.json config.limits level program
  | .play o => do
    let program ← readProgram read o.program
    let level ← readLevel read o.level
    let config := withDelay (withMaxSteps (← readConfig read o.config) o.maxSteps) o.stepDelay
    return playReply o.json config level program

def Command.run {m : Type → Type} [Monad m] (read : String → m (Except FileError String))
    (c : Command) : m Reply := do
  match ← (execute read c).run with
  | .ok reply => return reply
  | .error reply => return reply

end BlockRobot.CommandLine
