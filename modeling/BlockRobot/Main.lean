import BlockRobot.CommandLine.Commands

/-!
# The command line program

Reads files, waits, and writes: everything else is decided by `CommandLine.parse` and
`CommandLine.Command.run`.
-/

namespace BlockRobot.CommandLine

def version : String := "0.1.0"

def helpText : String := lines [
  "Run and check block programs",
  "",
  "  check PROGRAM [--json]      load a program and report problems without running it",
  "  simulate PROGRAM --level LEVEL [--config CONFIG] [--max-steps N] [--json]",
  "                              run a program to completion, leaving no trace",
  "  play PROGRAM --level LEVEL [--config CONFIG] [--max-steps N] [--step-delay-ms N] [--json]",
  "                              run a program step by step",
  "  blocks PROGRAM [--json]     count the blocks a program uses"]

def Usage.complaint : Usage → String
  | .help | .version => ""
  | .helpOnNothing => "no arguments given"
  | .missingCommand => "a command is required"
  | .unknownCommand => "unrecognized command"
  | .unknownArgument => "unexpected argument"
  | .missingArgument => "a required argument is missing"
  | .badNumber => "a value is not a number"
  | .badValue => "a value is missing or empty"
  | .repeated => "an argument is given more than once"
  | .unwantedValue => "a value is given to an option that takes none"

def readFromDisk (path : String) : IO (Except FileError String) := do
  try
    return .ok (← IO.FS.readFile path)
  catch
    | .noFileOrDirectory _ _ _ => return .error .notFound
    | .inappropriateType _ 21 _ => return .error .isADirectory
    | .invalidArgument _ 36 _ => return .error .nameTooLong
    | .inappropriateType _ _ _ => return .error .notADirectory
    | e => return .error (.other (toString e))

def writeReply (reply : Reply) : IO Unit := do
  let out ← IO.getStdout
  for chunk in reply.output do
    if 0 < chunk.delay then IO.sleep chunk.delay.toUInt32
    out.putStr chunk.text
    out.flush
  if let some report := reply.report then
    IO.eprintln report.title
    if let some location := report.location then IO.eprintln ("  at " ++ location)
    if let some help := report.help then IO.eprintln ("  help: " ++ help)
  if let first :: rest := reply.errors then
    IO.eprintln ("Error: " ++ first)
    for cause in rest do IO.eprintln ("  caused by: " ++ cause)

end BlockRobot.CommandLine

open BlockRobot.CommandLine in
def main (arguments : List String) : IO UInt32 := do
  match parse arguments with
  | .error .version => IO.println version
  | .error .help => IO.print helpText
  | .error usage =>
    IO.eprintln ("error: " ++ usage.complaint)
    IO.eprint helpText
    return usage.exitCode.toUInt32
  | .ok command =>
    let reply ← command.run readFromDisk
    writeReply reply
    return reply.exitCode.toUInt32
  return 0
