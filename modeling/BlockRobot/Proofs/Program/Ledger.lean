import BlockRobot.Proofs.Program.Segments

/-!
# What loading adds to the ledger

One ledger goes through all blocks, yet what a list of blocks gives and what it adds does not depend on
what was loaded before: `Block.steady_statements`. No block speaks of definitions.
-/

namespace BlockRobot

def Warning.IsRedefinition (w : Warning) : Prop :=
  "is defined more than once; the last definition wins".toList <:+ w.message.toList

instance (w : Warning) : Decidable w.IsRedefinition := inferInstanceAs (Decidable (_ <:+ _))

namespace Block

open Json (Value field?)

def Plain (ws : List Warning) : Prop := ∀ w ∈ ws, ¬ w.IsRedefinition

namespace Plain

variable {ws ws' : List Warning}

theorem nil : Plain [] := fun _ h => by cases h

theorem append (h : Plain ws) (h' : Plain ws') : Plain (ws ++ ws') := List.forall_mem_append.mpr ⟨h, h'⟩

/-- A message whose last letter is not that of such a warning. -/
theorem single {path : Path} {message : String} (h : message.toList.getLast?.any (· != 's') = true) :
    Plain [warning path message] := by
  refine List.forall_mem_singleton.mpr ?_
  rintro ⟨start, hstart⟩
  have hmessage : start ++ "is defined more than once; the last definition wins".toList = message.toList :=
    hstart
  have htext : "is defined more than once; the last definition wins".toList.getLast? = some 's' := by
    decide +kernel
  rw [← hmessage, List.getLast?_append, htext, Option.some_or] at h
  exact absurd h (by decide)

theorem single_append {path : Path} {start tail : String}
    (h : tail.toList.getLast?.any (· != 's') = true) : Plain [warning path (start ++ tail)] := by
  refine single ?_
  rw [String.toList_append, List.getLast?_append]
  cases htail : tail.toList.getLast? with
  | none =>
    rw [htail] at h
    cases h
  | some c => rwa [htail] at h

end Plain

/-! ## Conditions -/

theorem plain_comparison (path : Path) (fields : Json.Fields) : Plain (comparison path fields).2 := by
  simp only [comparison]
  split
  · exact .nil
  · exact .single (by decide +kernel)
  · exact .single (by decide +kernel)

theorem plain_sensor (path : Path) (fields : Json.Fields) : Plain (sensor path fields).2 := by
  simp only [sensor]
  split
  · exact .single (by decide +kernel)
  · exact .nil

mutual

theorem plain_condition (path : Path) (v : Value) : Plain (condition path v).2 := by
  cases v with
  | obj fields =>
    have hlist := plain_conditionsUnder path "conditions" fields
    simp only [condition]
    split
    · exact plain_comparison path fields
    · split
      · cases h : conditionsUnder? path "conditions" fields with
        | none => exact .single_append (by decide +kernel)
        | some r => exact hlist r h
      · split
        · exact plain_sensor path fields
        · exact .single_append (by decide +kernel)
  | _ => exact .single (by decide +kernel)

theorem plain_conditionsUnder (path : Path) (key : String) (fields : List (String × Value)) :
    ∀ r, conditionsUnder? path key fields = some r → Plain r.2 := by
  intro r h
  match fields with
  | [] => cases h
  | (k, v) :: rest =>
    have hrest := plain_conditionsUnder path key rest r
    cases v with
    | arr items =>
      have hitems := plain_conditions (path.field key) 0 items
      simp only [conditionsUnder?] at h
      split at h
      · cases h
        exact hitems
      · exact hrest h
    | _ =>
      simp only [conditionsUnder?] at h
      split at h
      · cases h
      · exact hrest h

theorem plain_conditions (path : Path) (i : Nat) (vs : List Value) : Plain (conditions path i vs).2 := by
  cases vs with
  | nil => exact .nil
  | cons v rest =>
    have hv := plain_condition (path.index i) v
    have hrest := plain_conditions path (i + 1) rest
    simp only [conditions]
    exact hv.append hrest

end

/-! ## Loading -/

/-- From one ledger to the other these warnings and kinds are added. -/
structure Adds (l l' : Ledger) (ws : List Warning) (ks : List Kind) : Prop where
  warnings : l'.warnings = l.warnings ++ ws
  unrolled : ∀ k, k ∈ l'.unrolled ↔ k ∈ l.unrolled ∨ k ∈ ks

theorem Adds.refl (l : Ledger) : Adds l l [] [] := ⟨(List.append_nil _).symm, fun _ => by simp⟩

theorem Adds.trans {l l' l'' : Ledger} {ws ws' : List Warning} {ks ks' : List Kind}
    (h : Adds l l' ws ks) (h' : Adds l' l'' ws' ks') : Adds l l'' (ws ++ ws') (ks ++ ks') where
  warnings := by rw [h'.warnings, h.warnings, List.append_assoc]
  unrolled k := by rw [h'.unrolled, h.unrolled, List.mem_append, or_assoc]

/-- Loading that succeeds gives `a` and adds these warnings and kinds, whatever was loaded before. -/
def Gives {α : Type} (load : Load α) (a : α) (ws : List Warning) (ks : List Kind) : Prop :=
  ∀ (l l' : Ledger) (b : α), load.run l = .ok (b, l') → b = a ∧ Adds l l' ws ks

namespace Gives

variable {α β : Type} {ws ws' : List Warning} {ks ks' : List Kind}

theorem pure (a : α) : Gives (Pure.pure a) a [] [] := by
  intro l l' b hrun
  cases hrun
  exact ⟨rfl, .refl l⟩

theorem bind {load : Load α} {next : α → Load β} {a : α} {b : β} (h : Gives load a ws ks)
    (hnext : Gives (next a) b ws' ks') : Gives (load >>= next) b (ws ++ ws') (ks ++ ks') := by
  intro l l' c hrun
  obtain ⟨a', l₁, hload, hrest⟩ := Program.exists_of_run_bind hrun
  obtain ⟨rfl, hadds⟩ := h l l₁ a' hload
  obtain ⟨rfl, hadds'⟩ := hnext l₁ l' c hrest
  exact ⟨rfl, hadds.trans hadds'⟩

theorem map (f : α → β) {load : Load α} {a : α} (h : Gives load a ws ks) :
    Gives (do return f (← load)) (f a) ws ks := by
  have hbind : Gives (load >>= fun a => Pure.pure (f a)) (f a) (ws ++ []) (ks ++ []) := h.bind (pure (f a))
  rwa [List.append_nil, List.append_nil] at hbind

theorem warnAll (ws : List Warning) : Gives (Block.warnAll ws) () ws [] := by
  intro l l' b hrun
  cases hrun
  exact ⟨rfl, rfl, fun k => by simp⟩

end Gives

/-- Loading that does the same whatever was loaded before, and does not speak of definitions. -/
def Steady {α : Type} (load : Load α) : Prop := ∃ a ws ks, Gives load a ws ks ∧ Plain ws

theorem eq_of_demand {limit : Option Nat} {n : Nat} {l l' : Ledger} {u : Unit}
    (h : (demand limit n).run l = .ok (u, l')) : l' = l := by
  unfold demand at h
  cases limit with
  | none => cases h; rfl
  | some k =>
    simp only [] at h
    split at h
    · cases h
    · cases h; rfl

namespace Steady

variable {α β : Type}

theorem pure (a : α) : Steady (Pure.pure a) := ⟨a, [], [], .pure a, .nil⟩

theorem bind {load : Load α} {next : α → Load β} (h : Steady load) (hnext : ∀ a, Steady (next a)) :
    Steady (load >>= next) := by
  obtain ⟨a, ws, ks, hgives, hplain⟩ := h
  obtain ⟨b, ws', ks', hgives', hplain'⟩ := hnext a
  exact ⟨b, ws ++ ws', ks ++ ks', hgives.bind hgives', hplain.append hplain'⟩

theorem ite {c : Prop} [Decidable c] {a b : Load α} (ha : Steady a) (hb : Steady b) :
    Steady (if c then a else b) := by
  split
  · exact ha
  · exact hb

theorem warnAll {ws : List Warning} (h : Plain ws) : Steady (Block.warnAll ws) :=
  ⟨(), ws, [], .warnAll ws, h⟩

theorem warn_pure {path : Path} {message : String} (h : Plain [warning path message]) (a : α) :
    Steady (do Block.warn path message; return a) := (warnAll h).bind fun _ => pure a

theorem drop {path : Path} {message : String} (h : Plain [warning path message]) :
    Steady (Block.drop path message) := warn_pure h []

theorem operandOrOne {path : Path} {message : String} (h : Plain [warning path message]) (key : String)
    (fields : Json.Fields) : Steady (Block.operandOrOne path key message fields) := by
  unfold Block.operandOrOne
  split
  · exact pure _
  · exact pure _
  · split
    · exact pure _
    · exact warn_pure h _

theorem countField (path : Path) (fields : Json.Fields) : Steady (Block.countField path fields) :=
  operandOrOne (.single (by decide +kernel)) "count" fields

theorem boundField (path : Path) (key : String) (fields : Json.Fields) :
    Steady (Block.boundField path key fields) :=
  operandOrOne (.single_append (by decide +kernel)) key fields

theorem repeatCount (path : Path) (fields : Json.Fields) : Steady (Block.repeatCount path fields) := by
  unfold Block.repeatCount
  split
  · exact pure _
  · split
    · exact pure _
    · exact warn_pure (.single (by decide +kernel)) _

theorem conditionField (path : Path) (fields : Json.Fields) :
    Steady (Block.conditionField path fields) := by
  unfold Block.conditionField
  split
  · exact pure _
  · exact (warnAll (plain_condition _ _)).bind fun _ => pure _

/-- What is charged shows in neither the warnings nor the kinds. -/
theorem spend (limit : Option Nat) (rounds length : Nat) : Steady (Block.spend limit rounds length) := by
  refine ⟨(), [], [], fun l l' b hrun => ⟨rfl, ?_⟩, .nil⟩
  obtain ⟨_, l₁, hfirst, hrun⟩ := Program.exists_of_run_bind hrun
  obtain ⟨_, l₂, hcharge, hrun⟩ := Program.exists_of_run_bind hrun
  obtain ⟨_, l₃, hget, hrun⟩ := Program.exists_of_run_bind hrun
  cases eq_of_demand hfirst
  cases hcharge
  cases hget
  cases eq_of_demand hrun
  exact ⟨(List.append_nil _).symm, fun k => by simp⟩

theorem writeOut (limit : Option Nat) (kind : Kind) (head : LoopHead) (body : List Statement) :
    Steady (Block.writeOut limit kind head body) := by
  have hinsert : Steady (modify fun l => { l with unrolled := l.unrolled.insert kind } : Load Unit) := by
    refine ⟨(), [], [kind], fun l l' b hrun => ?_, .nil⟩
    cases hrun
    refine ⟨rfl, (List.append_nil _).symm, fun k => ?_⟩
    rw [KindSet.mem_insert, List.mem_singleton, or_comm]
  unfold Block.writeOut
  split
  · exact pure _
  · exact hinsert.bind fun _ => ite (pure _) ((spend limit _ _).bind fun _ => pure _)

end Steady

/-! ## Blocks -/

/-- Loading a block is steady if loading the lists that it nests is. -/
theorem steady_of_lists {limit : Option Nat} {path : Path} {fields : Json.Fields}
    (hlists : ∀ (name : String) (keys : List String),
      Steady (statements limit (path.field name) 0 (listUnder keys fields)))
    (hclauses : Steady (clauses limit (path.field "elseIf") 0 (listUnder clauseKeys fields))) :
    Steady (statement limit path (.obj fields)) := by
  have hcounted (f : Expr → Statement) : Steady (do return [f (← countField path fields)]) :=
    (Steady.countField path fields).bind fun _ => .pure _
  simp only [statement, orEmpty_statementsUnder, orEmpty_clausesUnder]
  cases stringUnder? ["type"] fields with
  | none => exact .drop (.single (by decide +kernel))
  | some type =>
    refine .ite (hcounted _) (.ite (.pure _) (.ite (.pure _) (.ite (.pure _) (.ite (hcounted _)
      (.ite (hcounted _) (.ite (hcounted _) (.ite ?times (.ite ?range (.ite ?branch (.ite ?loop
        (.ite ?call ?other)))))))))))
    case times =>
      exact (Steady.repeatCount path fields).bind fun _ => (hlists "body" _).bind fun _ =>
        .writeOut limit _ _ _
    case range =>
      split
      · exact .drop (.single (by decide +kernel))
      · exact (Steady.boundField path "from" fields).bind fun _ =>
          (Steady.boundField path "to" fields).bind fun _ =>
          (Steady.boundField path "step" fields).bind fun _ =>
          (hlists "body" _).bind fun _ => .writeOut limit _ _ _
    case branch =>
      refine (Steady.conditionField path fields).bind fun c => ?_
      cases c with
      | none => exact .drop (.single (by decide +kernel))
      | some c =>
        exact (hlists "then" _).bind fun _ => hclauses.bind fun _ => (hlists "else" _).bind fun _ =>
          .pure _
    case loop =>
      refine (Steady.conditionField path fields).bind fun c => ?_
      cases c with
      | none => exact .drop (.single (by decide +kernel))
      | some c => exact (hlists "body" _).bind fun _ => .pure _
    case call =>
      split
      · exact .pure _
      · exact .drop (.single (by decide +kernel))
    case other => exact .drop (.single_append (by decide +kernel))

section

variable (limit : Option Nat)

mutual

theorem steady_statements (path : Path) (i : Nat) (vs : List Value) :
    Steady (statements limit path i vs) := by
  match vs with
  | [] =>
    simp only [statements]
    exact .pure _
  | v :: rest =>
    have hv := steady_statement (path.index i) v
    have hrest := steady_statements path (i + 1) rest
    simp only [statements]
    exact hv.bind fun _ => hrest.bind fun _ => .pure _
termination_by sizeOf vs

theorem steady_statement (path : Path) (v : Value) : Steady (statement limit path v) := by
  match v with
  | .obj fields =>
    exact steady_of_lists (fun name keys => steady_statements (path.field name) 0 (listUnder keys fields))
      (steady_clauses (path.field "elseIf") 0 (listUnder clauseKeys fields))
  | .null | .bool _ | .num _ | .str _ | .arr _ | .unreadable =>
    simp only [statement]
    exact .drop (.single (by decide +kernel))
termination_by sizeOf v
decreasing_by
  · exact sizeOf_listUnder_lt keys fields
  · exact sizeOf_listUnder_lt clauseKeys fields

theorem steady_clauses (path : Path) (i : Nat) (vs : List Value) :
    Steady (clauses limit path i vs) := by
  match vs with
  | [] =>
    simp only [clauses]
    exact .pure _
  | v :: rest =>
    have hv := steady_clause (path.index i) v
    have hrest := steady_clauses path (i + 1) rest
    simp only [clauses]
    exact hv.bind fun _ => hrest.bind fun _ => .pure _
termination_by sizeOf vs

theorem steady_clause (path : Path) (v : Value) : Steady (clause limit path v) := by
  match v with
  | .obj fields =>
    have hbody := steady_statements (path.field "then") 0 (listUnder ["then", "thenActions"] fields)
    simp only [clause, orEmpty_statementsUnder]
    refine (Steady.conditionField path fields).bind fun c => ?_
    cases c with
    | none => exact .warn_pure (.single (by decide +kernel)) _
    | some c => exact hbody.bind fun _ => .pure _
  | .null | .bool _ | .num _ | .str _ | .arr _ | .unreadable =>
    simp only [clause]
    exact .warn_pure (.single (by decide +kernel)) _
termination_by sizeOf v
decreasing_by
  exact sizeOf_listUnder_lt _ fields

end

end

end Block

end BlockRobot
