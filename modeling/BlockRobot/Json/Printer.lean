import BlockRobot.Json.Value

/-!
# Writing JSON text

Strings escape the quote, the backslash and the control characters, and nothing else.
-/

namespace BlockRobot.Json

def hexChar (n : Nat) : Char := if n < 10 then Char.ofNat (48 + n) else Char.ofNat (87 + n)

def escapeChar (c : Char) : List Char :=
  match c with
  | '"' => ['\\', '"']
  | '\\' => ['\\', '\\']
  | '\x08' => ['\\', 'b']
  | '\x0c' => ['\\', 'f']
  | '\n' => ['\\', 'n']
  | '\r' => ['\\', 'r']
  | '\t' => ['\\', 't']
  | _ =>
    if c.toNat < 0x20 then ['\\', 'u', '0', '0', hexChar (c.toNat / 16), hexChar (c.toNat % 16)]
    else [c]

def quote (s : String) : String := String.ofList ('"' :: s.toList.flatMap escapeChar ++ ['"'])

def scalarText : Value → String
  | .bool true => "true"
  | .bool false => "false"
  | .num n => n.text
  | .str s => quote s
  | _ => "null"

mutual

/-- The text of a value without any blanks. -/
def compact : Value → String
  | .arr items => "[" ++ ",".intercalate (compactItems items) ++ "]"
  | .obj fields => "\x7b" ++ ",".intercalate (compactFields fields) ++ "\x7d"
  | v => scalarText v

def compactItems : List Value → List String
  | [] => []
  | v :: rest => compact v :: compactItems rest

def compactFields : List (String × Value) → List String
  | [] => []
  | (k, v) :: rest => (quote k ++ ":" ++ compact v) :: compactFields rest

end

/-- A container with one entry to a line, its entries set in by two blanks. -/
def block (indent : String) (left right : String) (entries : List String) : String :=
  if entries.isEmpty then left ++ right
  else
    left ++ "\n" ++ ",\n".intercalate (entries.map fun e => indent ++ "  " ++ e) ++ "\n" ++ indent ++ right

mutual

def prettyAt (indent : String) : Value → String
  | .arr items => block indent "[" "]" (prettyItems (indent ++ "  ") items)
  | .obj fields => block indent "\x7b" "\x7d" (prettyFields (indent ++ "  ") fields)
  | v => scalarText v

def prettyItems (indent : String) : List Value → List String
  | [] => []
  | v :: rest => prettyAt indent v :: prettyItems indent rest

def prettyFields (indent : String) : List (String × Value) → List String
  | [] => []
  | (k, v) :: rest => (quote k ++ ": " ++ prettyAt indent v) :: prettyFields indent rest

end

def pretty (v : Value) : String := prettyAt "" v

end BlockRobot.Json
