import BlockRobot.Decimal.Basic

/-!
# Command line arguments

The arguments name a command, a program file, and options. They are taken from left to right; the
value of an option and the name of the program are only looked at once the next argument is known
to make sense, which decides which of two faults is reported.
-/

namespace BlockRobot.CommandLine

inductive Usage where
  | help
  | version
  | helpOnNothing
  | missingCommand
  | unknownCommand
  | unknownArgument
  | missingArgument
  | badNumber
  | badValue
  | repeated
  | unwantedValue
  deriving DecidableEq, Repr

def Usage.exitCode : Usage → Nat
  | .help | .version => 0
  | _ => 2

inductive Verb where
  | check
  | simulate
  | play
  | blocks
  deriving DecidableEq, Repr

def Verb.ofName? : String → Option Verb
  | "check" => some .check
  | "simulate" => some .simulate
  | "play" => some .play
  | "blocks" => some .blocks
  | _ => none

inductive Setting where
  | level
  | config
  | maxSteps
  | stepDelay
  deriving DecidableEq, Repr

def Setting.ofName? (verb : Verb) (name : String) : Option Setting :=
  match verb, name with
  | .simulate, "level" | .play, "level" => some .level
  | .simulate, "config" | .play, "config" => some .config
  | .simulate, "max-steps" | .play, "max-steps" => some .maxSteps
  | .play, "step-delay-ms" => some .stepDelay
  | _, _ => none

/-- A value that has been named but not yet looked at. -/
inductive Pending where
  | setting (setting : Setting) (value : Option String)
  | program (path : String)

/-- The arguments of a command taken so far. `plain` is set once all further arguments are names. -/
structure Given where
  json : Bool
  program : Option String
  level : Option String
  config : Option String
  maxSteps : Option Nat
  stepDelay : Option Nat
  pending : Option Pending
  named : Bool
  plain : Bool

namespace Given

def empty : Given := ⟨false, none, none, none, none, none, none, false, false⟩

abbrev Step := Except Usage

def path (value : String) : Step String := if value.isEmpty then .error .badValue else .ok value

def maxNumber : Nat := 18446744073709551615

def number (value : String) : Step Nat :=
  match value.toList with
  | '-' :: _ => .error .badNumber
  | cs =>
    match Decimal.wholeNumber? 0 maxNumber cs with
    | some n => .ok n.toNat
    | none => .error .badNumber

/-- Stores a value in a place that has to be free. -/
def fill {α : Type} (old : Option α) (read : String → Step α) (value : String) : Step (Option α) :=
  match old with
  | some _ => .error .repeated
  | none => (read value).map some

def store (g : Given) (setting : Setting) (value : String) : Step Given :=
  match setting with
  | .level => do return { g with level := ← fill g.level path value }
  | .config => do return { g with config := ← fill g.config path value }
  | .maxSteps => do return { g with maxSteps := ← fill g.maxSteps number value }
  | .stepDelay => do return { g with stepDelay := ← fill g.stepDelay number value }

def settle (g : Given) : Step Given :=
  let free := { g with pending := none }
  match g.pending with
  | none => .ok g
  | some (.setting _ none) => .error .badValue
  | some (.setting setting (some value)) => free.store setting value
  | some (.program value) => do return { free with program := some (← path value) }

def setJson (g : Given) : Step Given := do
  let g ← g.settle
  if g.json then throw .repeated
  return { g with json := true }

def name (g : Given) (value : String) : Step Given :=
  if g.named then .error .unknownArgument
  else do
    let g ← g.settle
    return { g with pending := some (.program value), named := true }

/-- Single letters after a dash: `v` asks for more log lines, of which there are none. -/
def letters (g : Given) : List Char → Step Given
  | [] => .ok g
  | 'v' :: rest => do letters (← g.settle) rest
  | 'h' :: _ => do
    let _ ← g.settle
    throw .help
  | _ => .error .unknownArgument

def long (verb : Verb) (g : Given) (name : String) (value : Option String) : Step Given :=
  match Setting.ofName? verb name with
  | some setting => do
    let g ← g.settle
    match value with
    | some value => g.store setting value
    | none => return { g with pending := some (.setting setting none) }
  | none =>
    if name = "json" || name = "verbose" || name = "help" then
      if value.isSome then .error .unwantedValue
      else if name = "json" then g.setJson
      else do
        let g ← g.settle
        if name = "help" then throw .help
        return g
    else .error .unknownArgument

def splitValue (cs : List Char) : String × Option String :=
  match cs.dropWhile (· != '=') with
  | [] => (String.ofList cs, none)
  | _ :: value => (String.ofList (cs.takeWhile (· != '=')), some (String.ofList value))

def take (verb : Verb) (g : Given) (argument : String) : Step Given :=
  if g.plain then g.name argument
  else match argument.toList with
    | ['-', '-'] => .ok { g with plain := true }
    | '-' :: '-' :: cs =>
      let (name, value) := splitValue cs
      g.long verb name value
    | '-' :: c :: cs => g.letters (c :: cs)
    | _ =>
      match g.pending with
      | some (.setting setting none) =>
        .ok { g with pending := some (.setting setting (some argument)) }
      | _ => g.name argument

end Given

structure RunOptions where
  program : String
  level : String
  config : Option String
  maxSteps : Option Nat
  stepDelay : Option Nat
  json : Bool
  deriving DecidableEq, Repr

inductive Command where
  | check (program : String) (json : Bool)
  | blocks (program : String) (json : Bool)
  | simulate (options : RunOptions)
  | play (options : RunOptions)
  deriving DecidableEq, Repr

def runOptions (g : Given) (program : String) : Except Usage RunOptions :=
  match g.level with
  | some level => .ok ⟨program, level, g.config, g.maxSteps, g.stepDelay, g.json⟩
  | none => .error .missingArgument

def Verb.parse (verb : Verb) (arguments : List String) : Except Usage Command := do
  let g ← arguments.foldlM (Given.take verb) Given.empty
  let g ← g.settle
  match g.program with
  | none => throw .missingArgument
  | some program =>
    match verb with
    | .check => return .check program g.json
    | .blocks => return .blocks program g.json
    | .simulate => return .simulate (← runOptions g program)
    | .play => return .play (← runOptions g program)

def helpOn : List String → Usage
  | [] => .help
  | [name] => if name = "help" || (Verb.ofName? name).isSome then .help else .unknownCommand
  | _ => .unknownCommand

/-- Letters after a dash in front of the command. -/
def frontLetters : List Char → Except Usage Unit
  | [] => .ok ()
  | 'v' :: rest => frontLetters rest
  | 'h' :: _ => .error .help
  | 'V' :: _ => .error .version
  | _ => .error .unknownArgument

def frontLong (name : String) (value : Option String) : Except Usage Unit :=
  if name = "verbose" || name = "help" || name = "version" then
    if value.isSome then .error .unwantedValue
    else if name = "help" then .error .help
    else if name = "version" then .error .version
    else .ok ()
  else .error .unknownArgument

def afterDashes : List String → Usage
  | [] => .helpOnNothing
  | name :: _ =>
    if name = "help" || (Verb.ofName? name).isSome then .unknownArgument else .unknownCommand

/-- Reads the arguments in front of the command, and then the command; `verbose` is set once one has
been read. -/
def parseFrom (verbose : Bool) : List String → Except Usage Command
  | [] => .error (if verbose then .missingCommand else .helpOnNothing)
  | argument :: rest =>
    match Verb.ofName? argument with
    | some verb => verb.parse rest
    | none =>
      if argument = "help" then .error (helpOn rest)
      else match argument.toList with
        | ['-', '-'] =>
          .error (if verbose && rest.isEmpty then .missingCommand else afterDashes rest)
        | '-' :: '-' :: cs => do
          let (name, value) := Given.splitValue cs
          frontLong name value
          parseFrom true rest
        | '-' :: c :: cs => do
          frontLetters (c :: cs)
          parseFrom true rest
        | _ => .error .unknownCommand

def parse (arguments : List String) : Except Usage Command := parseFrom false arguments

end BlockRobot.CommandLine
