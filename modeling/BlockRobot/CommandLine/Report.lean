import BlockRobot.Program.LoadError

/-!
# Reports on programs that do not load

A report points at a place in the file. The place of a JSON fault is computed as a byte offset and
looked up as a character, so that it can lie behind the end of a text with wide characters; then
the report has no place. The fault itself counts line feeds alone, but the place is shown in lines as
an editor shows them, which other characters end as well.
-/

namespace BlockRobot

namespace Report

/-- The number of bytes up to the end of the line break number `breaks`. -/
def lineStart : Nat → List Char → Nat
  | 0, _ => 0
  | _, [] => 0
  | n + 1, c :: rest => c.utf8Size + lineStart (if c = '\n' then n else n + 1) rest

/-- The byte offset of a line and column, both counted from 1. -/
def byteOffset (source : String) (line column : Nat) : Nat :=
  min (lineStart (line - 1) source.toList + (column - 1)) source.utf8ByteSize

def offset (source : String) : LoadError → Nat
  | .json e => byteOffset source e.position.line e.position.column
  | _ => 0

/-- The bytes that a report marks, as the offset of the first and the one behind the last: the byte in
question, or none at the end of the text. -/
def marked (source : String) (error : LoadError) : Nat × Nat :=
  let start := offset source error
  (start, max (min (start + 1) source.utf8ByteSize) start)

/-- The characters that end a line: carriage return, line feed, vertical tab, form feed, next line,
line separator and paragraph separator. -/
def lineBreaks : List Char := ['\r', '\n', '\x0b', '\x0c', '\u0085', '\u2028', '\u2029']

/-- Whether a line ends between `c` and `rest`. A carriage return and a line feed are one break, and
the end of the text begins no line. -/
def endsLine (c : Char) : List Char → Bool
  | [] => false
  | next :: _ => lineBreaks.contains c && !(c = '\r' && next = '\n')

/-- The line and column of the character number `index`, all counted from 1 but the index. The end
of the text belongs to its last line. -/
def place (index : Nat) : Nat → Nat → List Char → Nat × Nat
  | line, column, [] => (line, column)
  | line, column, c :: rest =>
    match index with
    | 0 => (line, column)
    | index + 1 =>
      if endsLine c rest then place index (line + 1) 1 rest
      else place index line (column + 1) rest

def location? (source : String) (error : LoadError) : Option (Nat × Nat) :=
  let chars := source.toList
  let index := offset source error
  if chars.isEmpty || chars.length < index then none else some (place index 1 1 chars)

end Report

structure Report where
  title : String
  location : Option String
  help : Option String
  deriving DecidableEq, Repr

def Report.of (file source : String) (error : LoadError) : Report :=
  let place := Report.location? source error
  let help := match error with
    | .missingField field => some ("add a top-level \"" ++ field ++ "\" field")
    | _ => none
  { title := "Error: " ++ error.message
    location := place.map fun p => file ++ ":" ++ toString p.1 ++ ":" ++ toString p.2
    help := if place.isSome then help else none }

end BlockRobot
