import BlockRobot.Program.Loader

/-!
# What blocks stand for

`Block.outline` says what blocks stand for apart from warnings and limits: their statements, and the
loops that are written out on the way. Loading gives these statements as long as what it charges for
the loops is within its limit, and fails otherwise: `Block.agrees_statements`.
-/

namespace BlockRobot

namespace Block

open Json (Value field?)

structure WrittenLoop where
  rounds : Nat
  body : List Statement

/-- What loading charges for loops: of each round the statements of its list, without what they
nest. -/
def charge (loops : List WrittenLoop) : Nat := sumOver (fun l => l.rounds * l.body.length) loops

theorem charge_append (xs ys : List WrittenLoop) : charge (xs ++ ys) = charge xs + charge ys :=
  sumOver_append _ xs ys

@[ext] structure Outline (α : Type) where
  value : α
  loops : List WrittenLoop

namespace Outline

variable {α β : Type}

instance : Monad Outline where
  pure a := ⟨a, []⟩
  bind x f := ⟨(f x.value).value, x.loops ++ (f x.value).loops⟩

@[simp] theorem value_pure (a : α) : (pure a : Outline α).value = a := rfl

@[simp] theorem loops_pure (a : α) : (pure a : Outline α).loops = [] := rfl

@[simp] theorem value_bind (x : Outline α) (f : α → Outline β) :
    (x >>= f).value = (f x.value).value := rfl

@[simp] theorem loops_bind (x : Outline α) (f : α → Outline β) :
    (x >>= f).loops = x.loops ++ (f x.value).loops := rfl

end Outline

/-! ## Outlines of blocks -/

def operandValue (key : String) (fields : Json.Fields) : Expr :=
  match field? key fields with
  | none | some .null => .one
  | some v => (operand? v).getD .one

def repeatValue (fields : Json.Fields) : Nat :=
  match field? "count" fields with
  | none => 1
  | some v => (wholeCount? v).getD 1

def conditionValue (fields : Json.Fields) : Option Condition :=
  match field? "condition" fields with
  | none => none
  | some v => (condition (.ofRoot "condition") v).1

def written (head : LoopHead) (body : List Statement) : Outline (List Statement) :=
  match head.staticCount with
  | none => pure [.repeatRange head body]
  | some rounds => ⟨(List.replicate rounds body).flatten, [⟨rounds, body⟩]⟩

def orNone {α : Type} (found : Option (Outline (List α))) : Outline (List α) := found.getD (pure [])

mutual

def outline : List Value → Outline (List Statement)
  | [] => pure []
  | v :: rest => do
    let here ← outlineBlock v
    let others ← outline rest
    return here ++ others

def outlineBlock : Value → Outline (List Statement)
  | .obj fields =>
    let body : Outline (List Statement) :=
      orNone (outlineUnder? "body" fields <|> outlineUnder? "bodyActions" fields)
    match stringUnder? ["type"] fields with
    | none => pure []
    | some kind =>
      if kind = "forward" || kind = "moveForward" then
        pure [.forward (operandValue "count" fields)]
      else if kind = "turnLeft" then pure [.turnLeft]
      else if kind = "turnRight" then pure [.turnRight]
      else if kind = "turnBack" || kind = "turnAround" then pure [.turnBack]
      else if kind = "collect" then
        pure [.collect (operandValue "count" fields) (colorsField fields)]
      else if kind = "putBox" then pure [.putBox (operandValue "count" fields)]
      else if kind = "takeBox" then pure [.takeBox (operandValue "count" fields)]
      else if kind = "repeat" then do written (.times (repeatValue fields)) (← body)
      else if kind = "repeatRange" then
        match stringUnder? ["variable"] fields with
        | none => pure []
        | some name => do
          written ⟨some name, operandValue "from" fields, operandValue "to" fields,
            operandValue "step" fields⟩ (← body)
      else if kind = "if" then
        match conditionValue fields with
        | none => pure []
        | some c => do
          let thenBody ← orNone (outlineUnder? "then" fields <|> outlineUnder? "thenActions" fields)
          let elseIfs ← orNone (outlineClausesUnder? "elseIf" fields <|>
            outlineClausesUnder? "elseIfClauses" fields)
          let elseBody ← orNone (outlineUnder? "else" fields <|> outlineUnder? "elseActions" fields)
          return [.ifElse c thenBody elseIfs elseBody]
      else if kind = "while" then
        match conditionValue fields with
        | none => pure []
        | some c => do return [.whileLoop c (← body)]
      else if kind = "callFunction" then
        match stringUnder? ["functionName", "name"] fields with
        | some name => pure [.call name]
        | none => pure []
      else pure []
  | _ => pure []

def outlineUnder? (key : String) : List (String × Value) → Option (Outline (List Statement))
  | [] => none
  | (k, v) :: rest =>
    if k = key then
      match v with
      | .arr items => some (outline items)
      | _ => none
    else outlineUnder? key rest

def outlineClausesUnder? (key : String) :
    List (String × Value) → Option (Outline (List (Condition × List Statement)))
  | [] => none
  | (k, v) :: rest =>
    if k = key then
      match v with
      | .arr items => some (outlineClauses items)
      | _ => none
    else outlineClausesUnder? key rest

def outlineClauses : List Value → Outline (List (Condition × List Statement))
  | [] => pure []
  | v :: rest => do
    let here ← outlineClause v
    let others ← outlineClauses rest
    return here.toList ++ others

def outlineClause : Value → Outline (Option (Condition × List Statement))
  | .obj fields =>
    match conditionValue fields with
    | none => pure none
    | some c => do
      let body ← orNone (outlineUnder? "then" fields <|> outlineUnder? "thenActions" fields)
      return some (c, body)
  | _ => pure none

end

/-! ## Loading what charges nothing -/

/-- Loading that gives `a` and charges nothing, whatever was loaded before. -/
def Free {α : Type} (load : Load α) (a : α) : Prop :=
  ∀ l : Ledger, ∃ l', load.run l = .ok (a, l') ∧ l'.spent = l.spent

namespace Free

variable {α β : Type}

theorem pure (a : α) : Free (Pure.pure a) a := fun l => ⟨l, rfl, rfl⟩

theorem bind {load : Load α} {next : α → Load β} {a : α} {b : β} (h : Free load a)
    (hnext : Free (next a) b) : Free (load >>= next) b := by
  intro l
  obtain ⟨l₁, h₁, hs₁⟩ := h l
  rw [StateT.run_bind, h₁, ← hs₁]
  exact hnext l₁

theorem warnAll (ws : List Warning) : Free (Block.warnAll ws) () := fun l =>
  ⟨{ l with warnings := l.warnings ++ ws }, rfl, rfl⟩

theorem warn (path : Path) (message : String) : Free (Block.warn path message) () := warnAll _

theorem drop (path : Path) (message : String) : Free (Block.drop path message) [] :=
  (warn path message).bind (pure [])

theorem operandOrOne (path : Path) (key message : String) (fields : Json.Fields) :
    Free (Block.operandOrOne path key message fields) (operandValue key fields) := by
  unfold Block.operandOrOne operandValue
  cases field? key fields with
  | none => exact pure _
  | some v =>
    by_cases hnull : v = .null
    · subst hnull
      exact pure _
    · cases h : operand? v with
      | none =>
        simp only [h, Option.getD_none]
        exact (warn path message).bind (pure _)
      | some e =>
        simp only [h, Option.getD_some]
        exact pure e

theorem repeatCount (path : Path) (fields : Json.Fields) :
    Free (Block.repeatCount path fields) (repeatValue fields) := by
  unfold Block.repeatCount repeatValue
  cases field? "count" fields with
  | none => exact pure 1
  | some v =>
    cases h : wholeCount? v with
    | none =>
      simp only [h, Option.getD_none]
      exact (warn path _).bind (pure _)
    | some n =>
      simp only [h, Option.getD_some]
      exact pure n

end Free

mutual

theorem condition_fst (p q : Path) (v : Value) : (condition p v).1 = (condition q v).1 := by
  cases v with
  | obj fields =>
    have hlist := conditionsUnder?_fst p q "conditions" fields
    simp only [condition]
    split
    · simp only [comparison]
      split <;> rfl
    · split
      · -- Both have a list, or neither has.
        cases hp : conditionsUnder? p "conditions" fields <;>
          cases hq : conditionsUnder? q "conditions" fields <;> simp_all
      · split
        · simp only [sensor]
          split <;> rfl
        · rfl
  | _ => rfl

theorem conditionsUnder?_fst (p q : Path) (key : String) (fields : List (String × Value)) :
    (conditionsUnder? p key fields).map Prod.fst =
      (conditionsUnder? q key fields).map Prod.fst := by
  match fields with
  | [] => rfl
  | (k, v) :: rest =>
    have hrest := conditionsUnder?_fst p q key rest
    cases v with
    | arr items =>
      have hitems := conditions_fst (p.field key) (q.field key) 0 0 items
      by_cases hk : k = key
      · simp only [conditionsUnder?, hk, if_true, Option.map_some, hitems]
      · simp only [conditionsUnder?, hk, if_false, hrest]
    | _ => by_cases hk : k = key <;> simp only [conditionsUnder?, hk, if_true, if_false, hrest]

theorem conditions_fst (p q : Path) (i j : Nat) (vs : List Value) :
    (conditions p i vs).1 = (conditions q j vs).1 := by
  cases vs with
  | nil => rfl
  | cons v rest =>
    simp only [conditions, condition_fst (p.index i) (q.index j) v,
      conditions_fst p q (i + 1) (j + 1) rest]

end

theorem Free.conditionField (path : Path) (fields : Json.Fields) :
    Free (Block.conditionField path fields) (conditionValue fields) := by
  unfold Block.conditionField conditionValue
  cases field? "condition" fields with
  | none => exact pure none
  | some v =>
    simp only [condition_fst (.ofRoot "condition") (path.field "condition") v]
    exact (warnAll _).bind (pure _)

/-! ## Loading beside outlines -/

/-- From one ledger to the other `n` statements are charged, as far as `maxCount` lets them count. -/
structure Charged (l l' : Ledger) (n : Nat) : Prop where
  le : l'.spent ≤ l.spent + n
  eq_of_le : l.spent + n ≤ maxCount → l'.spent = l.spent + n

/-- Loading gives the value of the outline and charges its loops, or fails if that is beyond the
limit. -/
structure Agrees {α : Type} (limit : Option Nat) (load : Load α) (x : Outline α) : Prop where
  ok : ∀ l : Ledger, (∀ k, limit = some k → l.spent + charge x.loops ≤ k) →
    ∃ l', load.run l = .ok (x.value, l') ∧ Charged l l' (charge x.loops)
  error : ∀ (l : Ledger) (k : Nat), limit = some k → k < maxCount → l.spent ≤ k →
    k < l.spent + charge x.loops → load.run l = .error (.expansionLimit k)

theorem Free.agrees {α : Type} {limit : Option Nat} {load : Load α} {x : Outline α}
    (h : Free load x.value) (hx : charge x.loops = 0) : Agrees limit load x where
  ok l _ := by
    obtain ⟨l', hrun, hspent⟩ := h l
    exact ⟨l', hrun, by omega, by omega⟩
  error _ _ _ _ _ _ := by omega

/-! ## Charging for loops -/

theorem demand_of_le {limit : Option Nat} {n : Nat} (h : ∀ k, limit = some k → n ≤ k) :
    demand limit n = pure () := by
  cases limit with
  | none => rfl
  | some k => exact if_neg (Nat.not_lt.mpr (h k rfl))

theorem demand_of_lt {k n : Nat} (h : k < n) : demand (some k) n = throw (.expansionLimit k) :=
  if_pos h

theorem spend_ok {limit : Option Nat} {rounds length : Nat} {l : Ledger} (hlength : 0 < length)
    (h : ∀ k, limit = some k → l.spent + rounds * length ≤ k) :
    ∃ l', (spend limit rounds length).run l = .ok ((), l') ∧ Charged l l' (rounds * length) := by
  have hrounds : rounds ≤ rounds * length := Nat.le_mul_of_pos_right rounds hlength
  have hfirst : demand limit rounds = pure () :=
    demand_of_le fun k hk => by have := h k hk; omega
  have hsecond : demand limit (min (l.spent + min (rounds * length) maxCount) maxCount) = pure () :=
    demand_of_le fun k hk => by have := h k hk; omega
  refine ⟨{ l with spent := min (l.spent + min (rounds * length) maxCount) maxCount }, ?_, ?_⟩
  · rw [spend, hfirst]
    change (demand limit _).run _ = _
    rw [hsecond]
    rfl
  · constructor <;> simp only [] <;> omega

/-- Below `maxCount` the counts that stop there exceed the same limits as the exact ones. -/
theorem spend_error {k rounds length : Nat} {l : Ledger} (hk : k < maxCount)
    (h : k < l.spent + rounds * length) :
    (spend (some k) rounds length).run l = .error (.expansionLimit k) := by
  rcases Nat.lt_or_ge k rounds with hlt | hle
  · rw [spend, demand_of_lt hlt]
    rfl
  · have hfirst : demand (some k) rounds = pure () :=
      demand_of_le fun k' hk' => by cases hk'; exact hle
    have hsecond : k < min (l.spent + min (rounds * length) maxCount) maxCount := by omega
    rw [spend, hfirst]
    change (demand (some k) _).run _ = _
    rw [demand_of_lt hsecond]
    rfl

namespace Agrees

variable {α β : Type} {limit : Option Nat}

theorem pure (a : α) : Agrees limit (Pure.pure a) (Pure.pure a) :=
  (Free.pure a).agrees rfl

theorem drop (path : Path) (message : String) :
    Agrees limit (Block.drop path message) (Pure.pure []) := (Free.drop path message).agrees rfl

theorem bind {load : Load α} {next : α → Load β} {x : Outline α} {y : α → Outline β}
    (h : Agrees limit load x) (hnext : Agrees limit (next x.value) (y x.value)) :
    Agrees limit (load >>= next) (x >>= y) := by
  have hsum : charge (x >>= y).loops = charge x.loops + charge (y x.value).loops :=
    charge_append _ _
  constructor
  · intro l hl
    obtain ⟨l₁, h₁, hle₁, heq₁⟩ := h.ok l fun k hk => by have := hl k hk; omega
    obtain ⟨l₂, h₂, hle₂, heq₂⟩ := hnext.ok l₁ fun k hk => by have := hl k hk; omega
    refine ⟨l₂, ?_, by omega, by omega⟩
    rw [StateT.run_bind, h₁]
    exact h₂
  · intro l k hk hmax hle hlt
    rw [StateT.run_bind]
    rcases Nat.lt_or_ge k (l.spent + charge x.loops) with hlt₁ | hle₁
    · rw [h.error l k hk hmax hle hlt₁]
      rfl
    · obtain ⟨l₁, h₁, _, heq₁⟩ := h.ok l fun k' hk' => by cases hk.symm.trans hk'; exact hle₁
      rw [h₁]
      exact hnext.error l₁ k hk hmax (by omega) (by omega)

theorem bind_free {load : Load α} {next : α → Load β} {a : α} {y : Outline β} (h : Free load a)
    (hnext : Agrees limit (next a) y) : Agrees limit (load >>= next) y :=
  bind (x := Pure.pure a) (y := fun _ => y) (h.agrees rfl) hnext

theorem map (f : α → β) {load : Load α} {x : Outline α} (h : Agrees limit load x) :
    Agrees limit (do return f (← load)) ⟨f x.value, x.loops⟩ := by
  have hout : (do return f (← x)) = (⟨f x.value, x.loops⟩ : Outline β) := by ext1 <;> simp
  rw [← hout]
  exact h.bind (pure _)

theorem ite {c : Prop} [Decidable c] {a b : Load α} {x y : Outline α} (ha : Agrees limit a x)
    (hb : Agrees limit b y) : Agrees limit (if c then a else b) (if c then x else y) := by
  split
  · exact ha
  · exact hb

theorem writeOut (kind : Kind) (head : LoopHead) (body : List Statement) :
    Agrees limit (Block.writeOut limit kind head body) (written head body) := by
  unfold Block.writeOut written
  cases head.staticCount with
  | none => exact pure _
  | some rounds =>
    have hcharge : charge [⟨rounds, body⟩] = rounds * body.length := Nat.add_zero _
    refine bind_free (a := ()) (fun l => ⟨_, rfl, rfl⟩) ?_
    by_cases hempty : (body.isEmpty || decide (rounds = 0)) = true
    · rw [if_pos hempty]
      have hnil : body = [] ∨ rounds = 0 := by simpa using hempty
      refine Free.agrees ?_ ?_
      · rcases hnil with rfl | rfl
        · simpa using Free.pure []
        · exact Free.pure []
      · rcases hnil with rfl | rfl <;> simp [hcharge]
    · rw [if_neg hempty]
      have hlength : 0 < body.length := by
        refine List.length_pos_iff.mpr fun hnil => hempty ?_
        rw [hnil]
        rfl
      constructor
      · intro l hl
        rw [hcharge] at hl ⊢
        obtain ⟨l', hrun, hcharged⟩ := spend_ok hlength hl
        refine ⟨l', ?_, hcharged⟩
        rw [StateT.run_bind, hrun]
        rfl
      · rintro l k rfl hmax - hlt
        rw [StateT.run_bind, spend_error hmax (hcharge ▸ hlt)]
        rfl

theorem first {a b : Option (Load (List α))} {x y : Option (Outline (List α))}
    (ha : Option.Rel (Agrees limit) a x) (hb : Option.Rel (Agrees limit) b y) :
    Agrees limit (orEmpty (a <|> b)) (orNone (x <|> y)) := by
  cases ha with
  | some h => exact h
  | none =>
    cases hb with
    | some h => exact h
    | none => exact pure []

end Agrees

section

variable (limit : Option Nat)

mutual

theorem agrees_statements (path : Path) (i : Nat) (vs : List Value) :
    Agrees limit (statements limit path i vs) (outline vs) := by
  cases vs with
  | nil => exact .pure []
  | cons v rest =>
    exact (agrees_statement (path.index i) v).bind
      ((agrees_statements path (i + 1) rest).bind (.pure _))

theorem agrees_statement (path : Path) (v : Value) :
    Agrees limit (statement limit path v) (outlineBlock v) := by
  cases v with
  | obj fields =>
    have hunder (path : Path) (key : String) := agrees_statementsUnder path key fields
    have hclauses (key : String) := agrees_clausesUnder path key fields
    have hbody := Agrees.first (hunder (path.field "body") "body")
      (hunder (path.field "body") "bodyActions")
    have hcount {f : Expr → Statement} :
        Agrees limit (do return [f (← countField path fields)])
          (pure [f (operandValue "count" fields)]) :=
      .bind_free (.operandOrOne path "count" _ fields) (.pure _)
    simp only [statement, outlineBlock]
    cases stringUnder? ["type"] fields with
    | none => exact .drop _ _
    | some kind =>
      refine .ite hcount (.ite (.pure _) (.ite (.pure _) (.ite (.pure _) (.ite ?collect
        (.ite hcount (.ite hcount (.ite ?times (.ite ?range (.ite ?branch (.ite ?loop
          (.ite ?call (.drop _ _))))))))))))
      case collect => exact .bind_free (.operandOrOne path "count" _ fields) (.pure _)
      case times => exact .bind_free (.repeatCount path fields) (hbody.bind (.writeOut _ _ _))
      case range =>
        cases stringUnder? ["variable"] fields with
        | none => exact .drop _ _
        | some name =>
          exact .bind_free (.operandOrOne path "from" _ fields) (.bind_free
            (.operandOrOne path "to" _ fields) (.bind_free (.operandOrOne path "step" _ fields)
              (hbody.bind (.writeOut _ _ _))))
      case branch =>
        refine .bind_free (.conditionField path fields) ?_
        cases conditionValue fields with
        | none => exact .drop _ _
        | some c =>
          exact .bind (.first (hunder _ "then") (hunder _ "thenActions")) (.bind
            (.first (hclauses "elseIf") (hclauses "elseIfClauses")) (.bind
              (.first (hunder _ "else") (hunder _ "elseActions")) (.pure _)))
      case loop =>
        refine .bind_free (.conditionField path fields) ?_
        cases conditionValue fields with
        | none => exact .drop _ _
        | some c => exact hbody.bind (.pure _)
      case call =>
        cases stringUnder? ["functionName", "name"] fields with
        | none => exact .drop _ _
        | some name => exact .pure _
  | _ => exact .drop _ _

theorem agrees_statementsUnder (path : Path) (key : String) (fields : List (String × Value)) :
    Option.Rel (Agrees limit) (statementsUnder? limit path key fields)
      (outlineUnder? key fields) := by
  match fields with
  | [] => exact .none
  | (k, v) :: rest =>
    have hrest := agrees_statementsUnder path key rest
    cases v with
    | arr items =>
      have hitems := agrees_statements path 0 items
      by_cases hk : k = key
      · simpa only [statementsUnder?, outlineUnder?, hk, if_true] using .some hitems
      · simpa only [statementsUnder?, outlineUnder?, hk, if_false] using hrest
    | _ =>
      by_cases hk : k = key
      · simpa only [statementsUnder?, outlineUnder?, hk, if_true] using .none
      · simpa only [statementsUnder?, outlineUnder?, hk, if_false] using hrest

theorem agrees_clausesUnder (path : Path) (key : String) (fields : List (String × Value)) :
    Option.Rel (Agrees limit) (clausesUnder? limit path key fields)
      (outlineClausesUnder? key fields) := by
  match fields with
  | [] => exact .none
  | (k, v) :: rest =>
    have hrest := agrees_clausesUnder path key rest
    cases v with
    | arr items =>
      have hitems := agrees_clauses (path.field "elseIf") 0 items
      by_cases hk : k = key
      · simpa only [clausesUnder?, outlineClausesUnder?, hk, if_true] using .some hitems
      · simpa only [clausesUnder?, outlineClausesUnder?, hk, if_false] using hrest
    | _ =>
      by_cases hk : k = key
      · simpa only [clausesUnder?, outlineClausesUnder?, hk, if_true] using .none
      · simpa only [clausesUnder?, outlineClausesUnder?, hk, if_false] using hrest

theorem agrees_clauses (path : Path) (i : Nat) (vs : List Value) :
    Agrees limit (clauses limit path i vs) (outlineClauses vs) := by
  cases vs with
  | nil => exact .pure []
  | cons v rest =>
    exact (agrees_clause (path.index i) v).bind ((agrees_clauses path (i + 1) rest).bind (.pure _))

theorem agrees_clause (path : Path) (v : Value) :
    Agrees limit (clause limit path v) (outlineClause v) := by
  cases v with
  | obj fields =>
    have hunder (key : String) := agrees_statementsUnder (path.field "then") key fields
    refine .bind_free (Free.conditionField path fields) ?_
    simp only [outlineClause]
    cases conditionValue fields with
    | none => exact .bind_free (.warn _ _) (.pure _)
    | some c => exact .bind (.first (hunder "then") (hunder "thenActions")) (.pure _)
  | _ => exact .bind_free (.warn _ _) (.pure _)

end

end

end Block

end BlockRobot
