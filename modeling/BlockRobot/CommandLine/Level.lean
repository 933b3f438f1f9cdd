import BlockRobot.Json.Reader
import BlockRobot.Run.Goal
import BlockRobot.Run.Limits

/-!
# Level and configuration files
-/

namespace BlockRobot

/-- A world and what counts as solving it. -/
structure Level where
  world : World
  goal : Goal
  deriving DecidableEq, Repr

def Level.ofJson? : Json.Decoder Level := fun v => do
  let fields ← Json.record ["world", "goal"] v
  return ⟨← Json.required "world" World.ofJson? fields,
    ← Json.defaulted "goal" .empty Goal.ofJson? fields⟩

/-- A configuration file, which has the configuration under `executor`. -/
def Config.ofFileJson? : Json.Decoder Config := fun v => do
  let fields ← Json.record ["executor"] v
  Json.defaulted "executor" .standard Config.ofJson? fields

/-- Reads a text whose unknown fields may hold anything. -/
def decodeText? {α : Type} (decode : Json.Decoder α) (text : String) : Option α :=
  match Json.readTolerant text with
  | .ok v => decode v
  | .error _ => none

def Level.parse? (text : String) : Option Level := decodeText? Level.ofJson? text

def Config.parse? (text : String) : Option Config := decodeText? Config.ofFileJson? text

end BlockRobot
