import BlockRobot.Program.Tree
import BlockRobot.World.Codec

/-!
# Goals

A goal names what a run has to gather, place and use. The first part that is missing decides what
a lost run is told: colors by ascending name, then boxes, then kinds of statements.
-/

namespace BlockRobot

structure Outcome where
  won : Bool
  message : String
  deriving DecidableEq, Repr

def Outcome.toJson (o : Outcome) : Json.Value := .obj [("won", .bool o.won), ("message", .str o.message)]

/-- The verdict on a run that ended without failing, given its last world and the kinds of statements
that it used. -/
abbrev Evaluator := World → KindSet → Outcome

/-- `collect` is by ascending color. -/
structure Goal where
  collect : Tally
  boxesPlaced : Option Nat
  required : List Kind
  deriving DecidableEq, Repr

inductive Shortfall where
  | items (got want : Nat) (color : String)
  | boxes (got want : Nat)
  | statement (kind : Kind)
  deriving DecidableEq, Repr

def Shortfall.message : Shortfall → String
  | .items got want color =>
    "collected " ++ toString got ++ " of " ++ toString want ++ " " ++ color ++ " items"
  | .boxes got want => "placed " ++ toString got ++ " of " ++ toString want ++ " boxes"
  | .statement kind => "this level must be solved using a " ++ kind.tag ++ " block"

namespace Goal

/-- The goal that every run reaches. -/
def empty : Goal := ⟨.empty, none, []⟩

def missingItems? (inventory : Inventory) : Entries Nat → Option Shortfall
  | [] => none
  | (color, want) :: rest =>
    let got := inventory.collected.of color
    if got < want then some (.items got want color) else missingItems? inventory rest

def missingBoxes? (g : Goal) (inventory : Inventory) : Option Shortfall :=
  g.boxesPlaced.bind fun want =>
    if inventory.boxesPlaced < want then some (.boxes inventory.boxesPlaced want) else none

def missingKind? (g : Goal) (used : KindSet) : Option Shortfall :=
  (g.required.find? fun k => !used.contains k).map .statement

def shortfall? (g : Goal) (inventory : Inventory) (used : KindSet) : Option Shortfall :=
  missingItems? inventory g.collect.entries <|> g.missingBoxes? inventory <|> g.missingKind? used

def judge (g : Goal) (w : World) (used : KindSet) : Outcome :=
  match g.shortfall? w.inventory used with
  | some s => ⟨false, s.message⟩
  | none => ⟨true, "level complete"⟩

instance : Coe Goal Evaluator := ⟨judge⟩

def ofJson? : Json.Decoder Goal := fun v => do
  let fields ← Json.record ["collect", "boxesPlaced", "requiredStatements"] v
  return ⟨(← Json.defaulted "collect" .empty World.tally? fields).sorted,
    ← Json.defaulted "boxesPlaced" none (Json.nullable World.tallyCount) fields,
    ← Json.defaulted "requiredStatements" [] (Json.list Tree.kind) fields⟩

def toJson (g : Goal) : Json.Value :=
  .obj [("collect", World.tallyJson g.collect),
    ("boxesPlaced", match g.boxesPlaced with
      | some n => .num (.int n)
      | none => .null),
    ("requiredStatements", .arr (g.required.map fun k => .str k.tag))]

end Goal

end BlockRobot
