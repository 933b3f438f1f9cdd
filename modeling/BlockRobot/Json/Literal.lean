import BlockRobot.Json.Fault

/-!
# Reading strings

A string is taken one character at a time, after its opening quote. A strict reading refuses half a
surrogate pair; a tolerant one goes on and marks the string as unreadable.
-/

namespace BlockRobot.Json

def hexDigit? (c : Char) : Option Nat :=
  if c.isDigit then some (c.toNat - 48)
  else if 'a' ≤ c && c ≤ 'f' then some (c.toNat - 87)
  else if 'A' ≤ c && c ≤ 'F' then some (c.toNat - 55)
  else none

def hexValue? (cs : List Char) : Option Nat :=
  if cs.length = 4 then
    cs.foldl (fun acc c => acc.bind fun n => (hexDigit? c).map (n * 16 + ·)) (some 0)
  else none

def isLead (n : Nat) : Bool := 0xD800 ≤ n && n ≤ 0xDBFF

def isTrail (n : Nat) : Bool := 0xDC00 ≤ n && n ≤ 0xDFFF

def joinPair (lead trail : Nat) : Char :=
  Char.ofNat (0x10000 + (lead - 0xD800) * 0x400 + (trail - 0xDC00))

inductive Literal.Phase where
  | plain
  | escape
  /-- After `\u` and the digits `digits`; `lead` is the first half of a surrogate pair. -/
  | hex (start : Nat) (digits : List Char) (lead : Option Nat)
  | pairEscape (lead : Nat)
  | pairMark (lead : Nat)

/-- The part of a string read so far, its characters in reverse. -/
structure Literal where
  chars : List Char
  phase : Literal.Phase
  readable : Bool

namespace Literal

def empty : Literal := ⟨[], .plain, true⟩

def text (l : Literal) : String := String.ofList l.chars.reverse

def add (l : Literal) (c : Char) : Literal := { l with chars := c :: l.chars, phase := .plain }

def spoil (l : Literal) : Literal := { l with phase := .plain, readable := false }

inductive Next where
  | more (l : Literal)
  /-- The closing quote, after the whole string. -/
  | close (l : Literal)
  | fault (f : Fault) (offset : Nat)

def pushPlain (l : Literal) (offset : Nat) (c : Char) : Next :=
  if c = '"' then .close l
  else if c = '\\' then .more { l with phase := .escape }
  else if c.toNat < 0x20 then .fault .controlCharacter (offset + 1)
  else .more (l.add c)

def pushEscape (l : Literal) (offset : Nat) (c : Char) : Next :=
  match c with
  | '"' => .more (l.add '"')
  | '\\' => .more (l.add '\\')
  | '/' => .more (l.add '/')
  | 'b' => .more (l.add '\x08')
  | 'f' => .more (l.add '\x0c')
  | 'n' => .more (l.add '\n')
  | 'r' => .more (l.add '\r')
  | 't' => .more (l.add '\t')
  | 'u' => .more { l with phase := .hex (offset + 1) [] none }
  | _ => .fault .invalidEscape (offset + 1)

/-- The code unit `unit` of an escape, which follows the code unit `lead` if there is one. -/
def pushUnit (strict : Bool) (l : Literal) (lead : Option Nat) (unit : Nat) (offset : Nat) : Next :=
  let lone : Next := if strict then .fault .loneSurrogate offset else .more l.spoil
  match lead with
  | some lead => if isTrail unit then .more (l.add (joinPair lead unit)) else lone
  | none =>
    if isTrail unit then lone
    else if isLead unit then .more { l with phase := .pairEscape unit }
    else .more (l.add (Char.ofNat unit))

def push (strict : Bool) (l : Literal) (offset : Nat) (c : Char) : Next :=
  match l.phase with
  | .plain => l.pushPlain offset c
  | .escape => l.pushEscape offset c
  | .hex start digits lead =>
    let digits := digits ++ [c]
    -- The escape takes four bytes, whatever characters they belong to.
    if offset + c.utf8Size < start + 4 then .more { l with phase := .hex start digits lead }
    else match hexValue? digits with
      | some unit => l.pushUnit strict lead unit (start + 4)
      | none => .fault .invalidEscape (start + 4)
  | .pairEscape lead =>
    if c = '\\' then .more { l with phase := .pairMark lead }
    else if strict then .fault .endOfHexEscape (offset + 1)
    else l.spoil.pushPlain offset c
  | .pairMark lead =>
    if c = 'u' then .more { l with phase := .hex (offset + 1) [] (some lead) }
    else if strict then .fault .endOfHexEscape (offset + 1)
    else l.spoil.pushEscape offset c

end Literal

end BlockRobot.Json
