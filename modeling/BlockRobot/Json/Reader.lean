import BlockRobot.Json.Literal
import BlockRobot.Json.Numeral

/-!
# Reading JSON text

The reader is an automaton with a stack: it takes one character at a time and never looks back, so
it always ends, and a fault lies at the character that the grammar does not allow. Positions count
bytes.

A strict reading bounds the nesting and refuses numbers out of range and half surrogate pairs. A
tolerant one leaves these in place as unreadable values, for a reader of the value to refuse if it
needs them.
-/

namespace BlockRobot.Json

/-- How many brackets a strict reading lets stand open at once. -/
def maxDepth : Nat := 127

/-! ## Values -/

/-- The fields of an object read so far, in reverse; `readable` when all of its keys are. -/
structure Members where
  fields : Fields
  readable : Bool

namespace Members

def empty : Members := ⟨[], true⟩

def add (m : Members) (key : Option String) (v : Value) : Members :=
  match key with
  | some key => { m with fields := (key, v) :: m.fields }
  | none => { m with readable := false }

/-- The finished object. In a strict reading a repeated key keeps its last value. -/
def close (strict : Bool) (m : Members) : Value :=
  if !m.readable then .unreadable
  else if strict then .obj (Fields.lastWins m.fields.reverse)
  else .obj m.fields.reverse

end Members

inductive Frame where
  | list (items : List Value)
  | field (members : Members) (key : Option String)

/-- What the next character may be. Items are in reverse, and a key is `none` when it is unreadable. -/
inductive Mode where
  | value
  | firstItem
  | nextItem (items : List Value)
  | itemEnd (items : List Value)
  | firstKey
  | nextKey (members : Members)
  | key (members : Members) (l : Literal)
  | colon (members : Members) (key : Option String)
  | fieldEnd (members : Members)
  | string (l : Literal)
  | word (rest : List Char) (v : Value)
  | number (n : Numeral)
  | ended (v : Value)

/-- `strict` is fixed for a reading; `offset` is the byte that comes next. -/
structure Reader where
  strict : Bool
  offset : Nat
  mode : Mode
  stack : List Frame

namespace Reader

/-- A step fails with a fault and the number of bytes up to its position. -/
abbrev Step := Except (Fault × Nat)

def fail (r : Reader) (f : Fault) : Step Reader := .error (f, r.offset + 1)

def enter (r : Reader) (mode : Mode) : Step Reader := .ok { r with mode := mode }

/-- Hands a finished value to the container that waits for it. -/
def finish (r : Reader) (v : Value) : Reader :=
  match r.stack with
  | [] => { r with mode := .ended v }
  | .list items :: rest => { r with mode := .itemEnd (v :: items), stack := rest }
  | .field members key :: rest => { r with mode := .fieldEnd (members.add key v), stack := rest }

def beginValue (r : Reader) (c : Char) : Step Reader :=
  let nest (mode : Mode) : Step Reader :=
    if r.strict && maxDepth ≤ r.stack.length then r.fail .tooDeep else r.enter mode
  if c = '"' then r.enter (.string .empty)
  else if c = '-' || c.isDigit then r.enter (.number (.start c))
  else if c = '[' then nest .firstItem
  else if c = '\x7b' then nest .firstKey
  else if c = 't' then r.enter (.word ['r', 'u', 'e'] (.bool true))
  else if c = 'f' then r.enter (.word ['a', 'l', 's', 'e'] (.bool false))
  else if c = 'n' then r.enter (.word ['u', 'l', 'l'] .null)
  else r.fail .expectedValue

def beginItem (r : Reader) (items : List Value) (c : Char) : Step Reader :=
  beginValue { r with stack := .list items :: r.stack } c

def isSpace (c : Char) : Bool := c = ' ' || c = '\n' || c = '\t' || c = '\r'

/-- A character that stands outside of strings, words and numerals. -/
def pushBetween (r : Reader) (c : Char) : Step Reader :=
  if isSpace c then .ok r
  else match r.mode with
    | .firstItem => if c = ']' then .ok (r.finish (.arr [])) else r.beginItem [] c
    | .nextItem items => if c = ']' then r.fail .trailingComma else r.beginItem items c
    | .itemEnd items =>
      if c = ',' then r.enter (.nextItem items)
      else if c = ']' then .ok (r.finish (.arr items.reverse))
      else r.fail .expectedListEnd
    | .firstKey =>
      if c = '"' then r.enter (.key .empty .empty)
      else if c = '\x7d' then .ok (r.finish (.obj []))
      else r.fail .keyNotString
    | .nextKey members =>
      if c = '"' then r.enter (.key members .empty)
      else if c = '\x7d' then r.fail .trailingComma
      else r.fail .keyNotString
    | .colon members key =>
      if c = ':' then .ok { r with mode := .value, stack := .field members key :: r.stack }
      else r.fail .expectedColon
    | .fieldEnd members =>
      if c = ',' then r.enter (.nextKey members)
      else if c = '\x7d' then .ok (r.finish (members.close r.strict))
      else r.fail .expectedObjectEnd
    | .ended _ => r.fail .trailingCharacters
    | _ => r.beginValue c

/-- A numeral that ends before the next character. -/
def finishNumber (r : Reader) (n : Numeral) : Step Reader :=
  match n.toNumber? with
  | some number => .ok (r.finish (.ofNumber number))
  | none => if r.strict then .error (.numberOutOfRange, r.offset) else .ok (r.finish .unreadable)

def push (r : Reader) (c : Char) : Step Reader :=
  match r.mode with
  | .string l =>
    match l.push r.strict r.offset c with
    | .more l => r.enter (.string l)
    | .close l => .ok (r.finish (if l.readable then .str l.text else .unreadable))
    | .fault f offset => .error (f, offset)
  | .key members l =>
    match l.push r.strict r.offset c with
    | .more l => r.enter (.key members l)
    | .close l => r.enter (.colon members (if l.readable then some l.text else none))
    | .fault f offset => .error (f, offset)
  | .word (x :: rest) v =>
    if c = x then
      if rest.isEmpty then .ok (r.finish v) else r.enter (.word rest v)
    else r.fail .expectedWord
  | .number n =>
    match n.push r.strict c with
    | .more n => r.enter (.number n)
    | .stop => (r.finishNumber n).bind (·.pushBetween c)
    | .fault f => r.fail f
  | _ => r.pushBetween c

def close (r : Reader) : Step Value :=
  let incomplete (f : Fault) : Step Value := .error (f, r.offset)
  match r.mode with
  | .value | .nextItem _ | .nextKey _ | .word _ _ => incomplete .endInValue
  | .firstItem | .itemEnd _ => incomplete .endInList
  | .firstKey | .colon _ _ | .fieldEnd _ => incomplete .endInObject
  | .string _ | .key _ _ => incomplete .endInString
  | .number n =>
    if n.complete then
      (r.finishNumber n).bind fun r =>
        match r.mode with
        | .ended v => .ok v
        | .itemEnd _ => incomplete .endInList
        | _ => incomplete .endInObject
    else incomplete .endInValue
  | .ended v => .ok v

def run (r : Reader) : List Char → Step Value
  | [] => r.close
  | c :: rest => (r.push c).bind fun r => run { r with offset := r.offset + c.utf8Size } rest

end Reader

/-! ## Positions -/

/-- A place in a text: lines count from 1, and the column is the number of bytes on the line up to
the place. -/
structure Position where
  line : Nat
  column : Nat
  deriving DecidableEq, Repr

namespace Position

def walk (stop : Nat) : Nat → Position → List Char → Position
  | _, p, [] => p
  | offset, p, c :: rest =>
    if stop ≤ offset then p
    else if c = '\n' then walk stop (offset + 1) ⟨p.line + 1, 0⟩ rest
    else
      let size := min c.utf8Size (stop - offset)
      walk stop (offset + c.utf8Size) ⟨p.line, p.column + size⟩ rest

def ofOffset (text : String) (offset : Nat) : Position := walk offset 0 ⟨1, 0⟩ text.toList

end Position

structure ReadError where
  fault : Fault
  position : Position
  deriving DecidableEq, Repr

def ReadError.message (e : ReadError) : String :=
  e.fault.message ++ " at line " ++ toString e.position.line ++ " column " ++ toString e.position.column

def readWith (strict : Bool) (text : String) : Except ReadError Value :=
  match Reader.run ⟨strict, 0, .value, []⟩ text.toList with
  | .ok v => .ok v
  | .error (fault, offset) => .error ⟨fault, .ofOffset text (min offset text.utf8ByteSize)⟩

/-- Reads a text strictly. -/
def read (text : String) : Except ReadError Value := readWith true text

/-- Reads a text whose fields are not all of interest. -/
def readTolerant (text : String) : Except ReadError Value := readWith false text

end BlockRobot.Json
