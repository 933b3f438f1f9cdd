import BlockRobot.Run.Action

/-!
# Why a run fails
-/

namespace BlockRobot

inductive RunError where
  | unknownFunction (name : String)
  | emptyWhileBody
  | insufficientItems (requested available : Nat) (colors : List String)
  | consecutiveBoxAction (kind : Kind)
  | zeroStep (name : String)
  | rangeLimit (name : String) (rounds limit : Nat)
  | stepLimit (limit : Nat)
  | queueLimit (limit : Nat)
  | refused (refusal : Refusal)
  deriving DecidableEq, Repr

namespace RunError

def describe (colors : List String) : String :=
  if colors.isEmpty then "matching" else " or ".intercalate colors

def message : RunError → String
  | .unknownFunction name => "function '" ++ name ++ "' is not defined"
  | .emptyWhileBody => "while loop condition is true but its body is empty"
  | .insufficientItems requested available colors =>
    "cannot collect " ++ toString requested ++ " " ++ describe colors ++ " item(s): only " ++
      toString available ++ " available on this tile"
  | .consecutiveBoxAction kind => "two " ++ kind.tag ++ " blocks in a row are not allowed"
  | .zeroStep name => "repeatRange over '" ++ name ++ "' has a step of 0 and would never end"
  | .rangeLimit name rounds limit =>
    "repeatRange over '" ++ name ++ "' would run " ++ toString rounds ++ " times; at most " ++
      toString limit ++ " are allowed"
  | .stepLimit limit => "program ran for more than " ++ toString limit ++ " steps without finishing"
  | .queueLimit limit =>
    "program expanded to more than " ++ toString limit ++ " pending instructions"
  | .refused refusal => refusal.message

def toJson (e : RunError) : Json.Value :=
  let nat (n : Nat) : Json.Value := .num (.int n)
  let named (tag : String) (fields : List (String × Json.Value)) : Json.Value :=
    .obj (("error", .str tag) :: fields)
  match e with
  | .unknownFunction name => named "unknownFunction" [("name", .str name)]
  | .emptyWhileBody => named "emptyWhileBody" []
  | .insufficientItems requested available colors =>
    named "insufficientItems"
      [("requested", nat requested), ("available", nat available), ("colors", .arr (colors.map .str))]
  | .consecutiveBoxAction kind => named "consecutiveBoxAction" [("kind", .str kind.tag)]
  | .zeroStep name => named "zeroStep" [("variable", .str name)]
  | .rangeLimit name rounds limit =>
    named "rangeLimitExceeded"
      [("variable", .str name), ("iterations", nat rounds), ("limit", nat limit)]
  | .stepLimit limit => named "stepLimitExceeded" [("limit", nat limit)]
  | .queueLimit limit => named "queueLimitExceeded" [("limit", nat limit)]
  | .refused refusal => named "world" [("message", .str refusal.message)]

end RunError

/-- An error, and the action that it belongs to, if it belongs to one. -/
structure Failure where
  action : Option Action
  error : RunError
  deriving DecidableEq, Repr

def Failure.message (f : Failure) : String :=
  match f.action with
  | some a => a.render ++ " failed: " ++ f.error.message
  | none => f.error.message

end BlockRobot
