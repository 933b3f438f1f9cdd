import BlockRobot.Json.Reader

/-!
# Reasons why a program does not load
-/

namespace BlockRobot

inductive FunctionFault where
  | notAnObject
  | noName
  deriving DecidableEq, Repr

def FunctionFault.message : FunctionFault → String
  | .notAnObject => "is not an object"
  | .noName => "has no name"

inductive LoadError where
  | json (error : Json.ReadError)
  | notAnObject
  | missingField (field : String)
  | invalidField (field : String) (expected : String)
  | invalidFunction (index : Nat) (fault : FunctionFault)
  | expansionLimit (limit : Nat)
  deriving DecidableEq, Repr

def LoadError.message : LoadError → String
  | .json e =>
    "invalid JSON at line " ++ toString e.position.line ++ ", column " ++ toString e.position.column ++
      ": " ++ e.message
  | .notAnObject => "program must be a JSON object"
  | .missingField field => "missing required field '" ++ field ++ "'"
  | .invalidField field expected => "field '" ++ field ++ "' must be " ++ expected
  | .invalidFunction index fault => "function #" ++ toString index ++ " " ++ fault.message
  | .expansionLimit limit => "repeat blocks expand to more than " ++ toString limit ++ " actions"

end BlockRobot
