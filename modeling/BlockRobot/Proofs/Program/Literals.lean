import BlockRobot.Program.Loader
import BlockRobot.Proofs.Json.Finite

/-!
# Numbers in expressions and conditions

The numbers that loading takes from a value as they stand are finite if those of the value are, and a text
that spells a number out of range is taken for a name. So all numbers of an operand or a condition are
finite: `Block.isFinite_operand?`, `Block.isFinite_condition`.
-/

namespace BlockRobot

def Expr.isFinite : Expr → Bool
  | .number x => x.isFinite
  | .var _ | .query _ _ => true
  | .arithmetic _ left right => left.isFinite && right.isFinite

namespace Condition

mutual

def isFinite : Condition → Bool
  | .comparison left _ right => left.isFinite && right.isFinite
  | .and cs => allFinite cs
  | .or cs => allFinite cs
  | .sensor _ _ => true

def allFinite : List Condition → Bool
  | [] => true
  | c :: cs => isFinite c && allFinite cs

end

theorem allFinite_append (cs ds : List Condition) :
    allFinite (cs ++ ds) = (allFinite cs && allFinite ds) := by
  induction cs with
  | nil => rfl
  | cons c cs ih => simp only [List.cons_append, allFinite, ih, Bool.and_assoc]

end Condition

namespace Block

open Json (Value field?)

theorem isFinite_spelled? {s : String} {x : Float} (h : spelled? s = some x) : x.isFinite = true := by
  unfold spelled? at h
  split at h
  · split at h
    · next hfinite =>
      cases h
      exact hfinite
    · cases h
  · cases h

theorem isFinite_textOperand? {s : String} {e : Expr} (h : textOperand? s = some e) :
    e.isFinite = true := by
  simp only [textOperand?] at h
  split at h
  · cases h
  · split at h
    · next hx =>
      cases h
      exact isFinite_spelled? hx
    · cases h
      rfl

theorem isFinite_query? {fields : Json.Fields} {e : Expr} (h : query? fields = some e) :
    e.isFinite = true := by
  obtain ⟨name, -, rfl⟩ := Option.map_eq_some_iff.mp h
  rfl

mutual

theorem isFinite_operand? (v : Value) (hv : v.isFinite = true) {e : Expr} (h : operand? v = some e) :
    e.isFinite = true := by
  cases v with
  | num n =>
    cases h
    exact hv
  | str s =>
    rw [operand?] at h
    exact isFinite_textOperand? h
  | obj fields =>
    have hunder {key : String} {e : Expr} (h : operandUnder? key fields = some e) :=
      isFinite_operandUnder? fields hv h
    have harithmetic {op? : Option ArithOp} {e : Expr}
        (h : (op?.bind fun op => (operandUnder? "left" fields).bind fun left =>
          (operandUnder? "right" fields).bind fun right => some (.arithmetic op left right)) = some e) :
        e.isFinite = true := by
      simp only [Option.bind_eq_some_iff] at h
      obtain ⟨op, -, left, hleft, right, hright, ⟨⟩⟩ := h
      rw [Expr.isFinite, hunder hleft, hunder hright]
      rfl
    simp only [operand?] at h
    split at h
    · split at h
      · exact hunder h
      · split at h
        · obtain ⟨name, -, rfl⟩ := Option.map_eq_some_iff.mp h
          rfl
        · split at h
          · exact harithmetic h
          · split at h
            · exact isFinite_query? h
            · cases h
    · split at h
      · exact isFinite_query? h
      · split at h
        · exact harithmetic h
        · cases h
  | _ => cases h

theorem isFinite_operandUnder? {key : String} (fields : List (String × Value))
    (hfields : Value.fieldsFinite fields = true) {e : Expr} (h : operandUnder? key fields = some e) :
    e.isFinite = true := by
  match fields with
  | [] => cases h
  | (k, v) :: rest =>
    simp only [Value.fieldsFinite, Bool.and_eq_true] at hfields
    simp only [operandUnder?] at h
    split at h
    · exact isFinite_operand? v hfields.1 h
    · exact isFinite_operandUnder? rest hfields.2 h

end

mutual

theorem isFinite_condition (path : Path) (v : Value) (hv : v.isFinite = true) {c : Condition}
    (h : (condition path v).1 = some c) : c.isFinite = true := by
  cases v with
  | obj fields =>
    have hunder {key : String} {r : List Condition × List Warning}
        (h : conditionsUnder? path key fields = some r) :=
      allFinite_conditionsUnder? path fields hv h
    simp only [condition] at h
    split at h
    · simp only [comparison] at h
      split at h
      · next hleft _ hright =>
        cases h
        rw [Condition.isFinite, isFinite_operandUnder? fields hv hleft,
          isFinite_operandUnder? fields hv hright]
        rfl
      · cases h
      · cases h
    · split at h
      · split at h
        · cases h
        · next hlist =>
          cases h
          split <;> exact hunder hlist
      · split at h
        · simp only [sensor] at h
          split at h
          · cases h
          · cases h
            rfl
        · cases h
  | _ => cases h

theorem allFinite_conditionsUnder? (path : Path) {key : String} (fields : List (String × Value))
    (hfields : Value.fieldsFinite fields = true) {r : List Condition × List Warning}
    (h : conditionsUnder? path key fields = some r) : Condition.allFinite r.1 = true := by
  match fields with
  | [] => cases h
  | (k, v) :: rest =>
    simp only [Value.fieldsFinite, Bool.and_eq_true] at hfields
    have hrest : conditionsUnder? path key rest = some r → Condition.allFinite r.1 = true :=
      allFinite_conditionsUnder? path rest hfields.2
    cases v with
    | arr items =>
      have hitems := allFinite_conditions (path.field key) 0 items hfields.1
      simp only [conditionsUnder?] at h
      split at h
      · cases h
        exact hitems
      · exact hrest h
    | _ =>
      simp only [conditionsUnder?] at h
      split at h
      · cases h
      · exact hrest h

theorem allFinite_conditions (path : Path) (i : Nat) (vs : List Value)
    (hvs : Value.allFinite vs = true) : Condition.allFinite (conditions path i vs).1 = true := by
  cases vs with
  | nil => rfl
  | cons v rest =>
    simp only [Value.allFinite, Bool.and_eq_true] at hvs
    have hv {c : Condition} := isFinite_condition (path.index i) v hvs.1 (c := c)
    simp only [conditions, Condition.allFinite_append, allFinite_conditions path (i + 1) rest hvs.2,
      Bool.and_true]
    cases hc : (condition (path.index i) v).1 with
    | none => rfl
    | some c => simp only [Option.toList_some, Condition.allFinite, hv hc, Bool.and_true]

end

end Block

end BlockRobot
