import BlockRobot.Session.Basic

/-!
# Sessions as JSON values and lines of text
-/

namespace BlockRobot

open Json (Value)

def Phase.toJson : Phase → Value
  | .idle => .obj [("state", .str "idle")]
  | .running => .obj [("state", .str "running")]
  | .paused => .obj [("state", .str "paused")]
  | .completed outcome => .obj [("state", .str "completed"), ("outcome", outcome.toJson)]
  | .failed reason => .obj [("state", .str "failed"), ("reason", .str reason)]

namespace Event

def toJson (e : Event) : Value :=
  let nat (n : Nat) : Value := .num (.int n)
  let named (tag : String) (fields : List (String × Value)) : Value :=
    .obj (("event", .str tag) :: fields)
  match e with
  | .started total => named "started" [("total", nat total)]
  | .step index total action =>
    named "step" [("index", nat index), ("total", nat total), ("action", action.toJson)]
  | .paused index => named "paused" [("index", nat index)]
  | .resumed index => named "resumed" [("index", nat index)]
  | .stopped => named "stopped" []
  | .finished won message => named "finished" [("won", .bool won), ("message", .str message)]
  | .failed reason action =>
    named "failed" [("reason", .str reason), ("action", match action with
      | some a => a.toJson
      | none => .null)]

/-- An event as a line for a player. -/
def line : Event → String
  | .started total => "started (" ++ toString total ++ " queued)"
  | .step index total action =>
    "[" ++ toString index ++ "/" ++ toString total ++ "] " ++ action.render
  | .paused index => "Paused \x7b index: " ++ toString index ++ " \x7d"
  | .resumed index => "Resumed \x7b index: " ++ toString index ++ " \x7d"
  | .stopped => "Stopped"
  | .finished won message => (if won then "won" else "lost") ++ ": " ++ message
  | .failed reason (some action) => "failed at " ++ action.render ++ ": " ++ reason
  | .failed reason none => "failed: " ++ reason

end Event

end BlockRobot
