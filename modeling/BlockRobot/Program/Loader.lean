import BlockRobot.Program.Block.Count
import BlockRobot.Program.Block.Reader

/-!
# Loading a program

The envelope of a program has to be right: its version, its list of actions, and the names of its
functions. Below that, blocks that make no sense are left out with a warning.
-/

namespace BlockRobot.Program

open Block (Load)
open Json (Value field?)

/-- How many statements the `repeat` blocks of a program may be written out to. -/
def maxUnrolled : Nat := 100000

def bodyBlocks (fields : Json.Fields) : List Value :=
  let items? (key : String) : Option (List Value) := match field? key fields with
    | some (.arr items) => some items
    | _ => none
  (["body", "bodyActions", "actions"].findSome? items?).getD []

/-- The function at `index` of the list of functions, and the number of its blocks. -/
def loadFunction (limit : Option Nat) (index : Nat) : Value → Load (Function × Nat)
  | .obj fields =>
    match field? "name" fields with
    | some (.str name) =>
      if (Text.trim name).isEmpty then throw (.invalidFunction index .noName)
      else do
        let blocks := bodyBlocks fields
        let body ← Block.statements limit ((Path.ofRoot "functions").field name) 0 blocks
        return (⟨name, body⟩, Block.count blocks)
    | _ => throw (.invalidFunction index .noName)
  | _ => throw (.invalidFunction index .notAnObject)

/-- Adds the functions of a list, of which the first has the index `index`, to `table`. A function
that is defined again replaces the earlier one. -/
def loadFunctions (limit : Option Nat) (index : Nat) (table : Table Function) (blocks : Nat) :
    List Value → Load (Table Function × Nat)
  | [] => return (table, blocks)
  | v :: rest => do
    let (f, n) ← loadFunction limit index v
    if table.contains f.name then
      Block.warn ((Path.ofRoot "functions").index index)
        ("function '" ++ f.name ++ "' is defined more than once; the last definition wins")
    loadFunctions limit (index + 1) (table.insert f.name f) (blocks + n) rest

def requireString (field : String) (fields : Json.Fields) : Except LoadError String :=
  match field? field fields with
  | some (.str s) => .ok s
  | some _ => .error (.invalidField field "a string")
  | none => .error (.missingField field)

def requireList (field : String) (fields : Json.Fields) : Except LoadError (List Value) :=
  match field? field fields with
  | some (.arr items) => .ok items
  | some _ => .error (.invalidField field "an array")
  | none => .error (.missingField field)

/-- The list under `field`, which may be missing. -/
def allowList (field : String) (fields : Json.Fields) : Except LoadError (List Value) :=
  match field? field fields with
  | none => .ok []
  | some _ => requireList field fields

/-- Loads a program of which at most `limit` statements may be written out. -/
def loadValueWith (limit : Option Nat) : Value → Except LoadError Program
  | .obj fields => do
    let version ← requireString "version" fields
    let blocks ← requireList "actions" fields
    let functionBlocks ← allowList "functions" fields
    let load : Load Program := do
      let (functions, count) ← loadFunctions limit 0 .empty (Block.count blocks) functionBlocks
      let actions ← Block.statements limit (Path.ofRoot "actions") 0 blocks
      let ledger ← get
      return {
        version, functions, actions
        name := Block.stringUnder? ["programName"] fields
        blockCount := count
        unrolled := ledger.unrolled
        warnings := ledger.warnings }
    let (program, _) ← load.run ⟨[], .empty, 0⟩
    return program
  | _ => .error .notAnObject

def loadValue (v : Value) : Except LoadError Program := loadValueWith (some maxUnrolled) v

def load (source : String) : Except LoadError Program :=
  match Json.read source with
  | .ok v => loadValue v
  | .error e => .error (.json e)

end BlockRobot.Program
