import BlockRobot.Json.Value
import BlockRobot.Table

/-!
# Decoding JSON values

A record is an object, of which unknown fields are skipped and known ones may not be repeated, or a
list of its fields in order. A decoder gives nothing where the value does not have the form it
wants.
-/

namespace BlockRobot.Json

abbrev Decoder (α : Type) := Value → Option α

def boolean : Decoder Bool
  | .bool b => some b
  | _ => none

def string : Decoder String
  | .str s => some s
  | _ => none

/-- An integer between `low` and `high`, written without a point. -/
def integer (low high : Int) : Decoder Int
  | .num (.int n) => if low ≤ n && n ≤ high then some n else none
  | _ => none

/-- A natural number up to `high`. -/
def natural (high : Nat) : Decoder Nat := fun v => (integer 0 high v).map Int.toNat

/-- A natural number of any size. One that was read from a text fits 64 bits. -/
def size : Decoder Nat
  | .num (.int (.ofNat n)) => some n
  | _ => none

def double : Decoder Float
  | .num n => some n.toFloat
  | _ => none

/-- The name of an alternative without contents: a string, or an object with a null under that name. -/
def tag : Decoder String
  | .str s => some s
  | .obj [(name, .null)] => some name
  | _ => none

def list {α : Type} (item : Decoder α) : Decoder (List α)
  | .arr items => items.mapM item
  | _ => none

def nullable {α : Type} (value : Decoder α) : Decoder (Option α)
  | .null => some none
  | v => (value v).map some

/-- The entries of an object; a later entry replaces an earlier one of the same name. -/
def table {α : Type} (value : Decoder α) : Decoder (Table α)
  | .obj fields => (fields.mapM fun f => (value f.2).map fun a => (f.1, a)).map Table.ofEntries
  | _ => none

def occurrences (name : String) (fields : Fields) : Nat := fields.countP (·.1 == name)

/-- The fields of a record with the given field names. -/
def record (names : List String) : Decoder Fields
  | .obj fields => if names.all fun n => occurrences n fields ≤ 1 then some fields else none
  | .arr items => if items.length ≤ names.length then some (names.zip items) else none
  | _ => none

def required {α : Type} (name : String) (value : Decoder α) (fields : Fields) : Option α :=
  (field? name fields).bind value

/-- A field that may be missing or null. -/
def optional {α : Type} (name : String) (value : Decoder α) (fields : Fields) : Option (Option α) :=
  match field? name fields with
  | none => some none
  | some v => nullable value v

def defaulted {α : Type} (name : String) (fallback : α) (value : Decoder α) (fields : Fields) :
    Option α :=
  match field? name fields with
  | none => some fallback
  | some v => value v

end BlockRobot.Json
