import BlockRobot.Json.Reader

/-!
# Finite numbers in JSON values
-/

namespace BlockRobot.Json

namespace Value

mutual

def isFinite : Value → Bool
  | .num n => n.toFloat.isFinite
  | .arr items => allFinite items
  | .obj fields => fieldsFinite fields
  | _ => true

def allFinite : List Value → Bool
  | [] => true
  | v :: rest => isFinite v && allFinite rest

def fieldsFinite : List (String × Value) → Bool
  | [] => true
  | (_, v) :: rest => isFinite v && fieldsFinite rest

end

theorem allFinite_iff {vs : List Value} : allFinite vs = true ↔ ∀ v ∈ vs, v.isFinite = true := by
  induction vs with
  | nil => simp [allFinite]
  | cons v rest ih => simp [allFinite, ih]

theorem fieldsFinite_iff {fields : Fields} :
    fieldsFinite fields = true ↔ ∀ f ∈ fields, f.2.isFinite = true := by
  induction fields with
  | nil => simp [fieldsFinite]
  | cons f rest ih => simp [fieldsFinite, ih]

theorem isFinite_of_field? {fields : Fields} {key : String} {v : Value}
    (hfields : fieldsFinite fields = true) (h : field? key fields = some v) : v.isFinite = true :=
  fieldsFinite_iff.mp hfields (key, v) (Entries.mem_of_get? h)

end Value

end BlockRobot.Json
