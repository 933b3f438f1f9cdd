import BlockRobot.Proofs.Program.Blocks

/-!
# What loading says about the blocks of a list

Each block of a list gives a segment of the statements and of the warnings: `Block.segments_of_statements`.
A block that is left out gives no statement but one warning that says so, and every warning stands at the
block that it is about, or below it.
-/

namespace BlockRobot

theorem Path.renderSteps_ne_empty {steps : List Path.Step} (h : steps ≠ []) :
    Path.renderSteps steps ≠ "" := by
  cases steps with
  | nil => exact absurd rfl h
  | cons s rest => cases s <;> simp [Path.renderSteps, Path.Step.render]

/-! ## Warnings -/

def Warning.Drops (path : Path) (w : Warning) : Prop :=
  w.path = path.render ∧ "ignored".toList <:+ w.message.toList

instance (path : Path) (w : Warning) : Decidable (w.Drops path) := inferInstanceAs (Decidable (_ ∧ _))

namespace Block

open Json (Value field?)

def drops (path : Path) (ws : List Warning) : Nat := ws.countP fun w => w.Drops path

def Under (path : Path) (ws : List Warning) : Prop := ∀ w ∈ ws, path.render.toList <+: w.path.toList

/-- The warnings stand at the path or below it, and leave what stands there in. -/
structure Quiet (path : Path) (ws : List Warning) : Prop where
  under : Under path ws
  drops : drops path ws = 0

theorem drops_append (path : Path) (ws ws' : List Warning) :
    drops path (ws ++ ws') = drops path ws + drops path ws' := List.countP_append

namespace Under

variable {path : Path} {ws ws' : List Warning}

theorem nil (path : Path) : Under path [] := fun _ h => by cases h

theorem append (h : Under path ws) (h' : Under path ws') : Under path (ws ++ ws') :=
  List.forall_mem_append.mpr ⟨h, h'⟩

theorem single (path : Path) (message : String) : Under path [warning path message] :=
  List.forall_mem_singleton.mpr (List.prefix_refl _)

theorem of_extend {steps : List Path.Step} (h : Under (path.extend steps) ws) : Under path ws := by
  intro w hw
  have hpath : path.render.toList <+: (path.extend steps).render.toList := by
    rw [Path.render_extend, String.toList_append]
    exact List.prefix_append _ _
  exact hpath.trans (h w hw)

end Under

namespace Quiet

variable {path : Path} {ws ws' : List Warning}

theorem nil (path : Path) : Quiet path [] := ⟨.nil path, rfl⟩

theorem append (h : Quiet path ws) (h' : Quiet path ws') : Quiet path (ws ++ ws') :=
  ⟨h.under.append h'.under, by rw [drops_append, h.drops, h'.drops]⟩

theorem single {message : String} (h : ¬ "ignored".toList <:+ message.toList) :
    Quiet path [warning path message] := by
  refine ⟨.single path message, List.countP_eq_zero.mpr fun w hw => ?_⟩
  rw [List.mem_singleton.mp hw, decide_eq_true_eq]
  exact fun hdrops => h hdrops.2

/-- A warning further down is not about what stands at the path itself. -/
theorem of_extend {steps : List Path.Step} (hsteps : steps ≠ []) (h : Under (path.extend steps) ws) :
    Quiet path ws := by
  refine ⟨h.of_extend, List.countP_eq_zero.mpr fun w hw => ?_⟩
  rw [decide_eq_true_eq]
  rintro ⟨hpath, -⟩
  have hprefix := (h w hw).length_le
  rw [hpath, Path.render_extend, String.toList_append, List.length_append] at hprefix
  refine Path.renderSteps_ne_empty hsteps (String.toList_inj.mp (List.length_eq_zero_iff.mp ?_))
  omega

theorem of_field {name : String} (h : Under (path.field name) ws) : Quiet path ws :=
  of_extend (List.cons_ne_nil _ _) h

end Quiet

/-! ## Conditions -/

theorem under_comparison (path : Path) (fields : Json.Fields) : Under path (comparison path fields).2 := by
  simp only [comparison]
  split
  · exact .nil path
  · exact .single path _
  · exact .single path _

theorem under_sensor (path : Path) (fields : Json.Fields) : Under path (sensor path fields).2 := by
  simp only [sensor]
  split
  · exact .single path _
  · exact .nil path

mutual

theorem under_condition (path : Path) (v : Value) : Under path (condition path v).2 := by
  cases v with
  | obj fields =>
    have hlist := under_conditionsUnder path "conditions" fields
    simp only [condition]
    split
    · exact under_comparison path fields
    · split
      · cases h : conditionsUnder? path "conditions" fields with
        | none => exact .single path _
        | some r => exact hlist r h
      · split
        · exact under_sensor path fields
        · exact .single path _
  | _ => exact .single path _

theorem under_conditionsUnder (path : Path) (key : String) (fields : List (String × Value)) :
    ∀ r, conditionsUnder? path key fields = some r → Under path r.2 := by
  intro r h
  match fields with
  | [] => cases h
  | (k, v) :: rest =>
    have hrest := under_conditionsUnder path key rest r
    cases v with
    | arr items =>
      have hitems := under_conditions (path.field key) 0 items
      simp only [conditionsUnder?] at h
      split at h
      · cases h
        exact hitems.of_extend
      · exact hrest h
    | _ =>
      simp only [conditionsUnder?] at h
      split at h
      · cases h
      · exact hrest h

theorem under_conditions (path : Path) (i : Nat) (vs : List Value) : Under path (conditions path i vs).2 := by
  cases vs with
  | nil => exact .nil path
  | cons v rest =>
    have hv := under_condition (path.index i) v
    have hrest := under_conditions path (i + 1) rest
    simp only [conditions]
    exact hv.of_extend.append hrest

end

/-! ## Loading and its warnings -/

/-- Whatever was loaded before, loading that succeeds only adds warnings, which with its result have the
property `P`. -/
def Tells {α : Type} (P : α → List Warning → Prop) (load : Load α) : Prop :=
  ∀ (l l' : Ledger) (a : α), load.run l = .ok (a, l') → ∃ ws, l'.warnings = l.warnings ++ ws ∧ P a ws

namespace Tells

variable {α β : Type} {P : α → List Warning → Prop} {Q : β → List Warning → Prop}

theorem pure {a : α} (h : P a []) : Tells P (Pure.pure a) := by
  intro l l' b hrun
  cases hrun
  exact ⟨[], (List.append_nil _).symm, h⟩

theorem bind {load : Load α} {next : α → Load β} (h : Tells P load)
    (hnext : ∀ a ws, P a ws → Tells (fun b ws' => Q b (ws ++ ws')) (next a)) :
    Tells Q (load >>= next) := by
  intro l l' b hrun
  obtain ⟨a, l₁, hload, hrest⟩ := Program.exists_of_run_bind hrun
  obtain ⟨ws, hws, ha⟩ := h l l₁ a hload
  obtain ⟨ws', hws', hb⟩ := hnext a ws ha l₁ l' b hrest
  exact ⟨ws ++ ws', by rw [hws', hws, List.append_assoc], hb⟩

theorem mono {P' : α → List Warning → Prop} {load : Load α} (h : Tells P load)
    (himp : ∀ a ws, P a ws → P' a ws) : Tells P' load := by
  intro l l' a hrun
  obtain ⟨ws, hws, ha⟩ := h l l' a hrun
  exact ⟨ws, hws, himp a ws ha⟩

theorem run {load : Load α} (h : Tells P load) :
    Tells (fun a ws => (∃ l l', load.run l = .ok (a, l')) ∧ P a ws) load := by
  intro l l' a hrun
  obtain ⟨ws, hws, ha⟩ := h l l' a hrun
  exact ⟨ws, hws, ⟨l, l', hrun⟩, ha⟩

theorem ite {c : Prop} [Decidable c] {a b : Load α} (ha : c → Tells P a) (hb : ¬ c → Tells P b) :
    Tells P (if c then a else b) := by
  split
  · next h => exact ha h
  · next h => exact hb h

theorem warnAll {P : Unit → List Warning → Prop} {ws : List Warning} (h : P () ws) :
    Tells P (Block.warnAll ws) := by
  intro l l' _ hrun
  cases hrun
  exact ⟨ws, rfl, h⟩

theorem warn_pure {path : Path} {message : String} {a : α} (h : P a [warning path message]) :
    Tells P (do Block.warn path message; return a) :=
  (warnAll rfl).bind fun _ ws (hws : ws = _) => pure (by rw [hws]; exact h)

theorem bind_silent {load : Load α} {next : α → Load β} (h : Tells (fun _ ws => ws = []) load)
    (hnext : ∀ a, Tells Q (next a)) : Tells Q (load >>= next) := by
  refine h.bind fun a ws hws => ?_
  rw [hws]
  exact hnext a

theorem operandOrOne {message : String} (hmessage : ¬ "ignored".toList <:+ message.toList) (path : Path)
    (key : String) (fields : Json.Fields) :
    Tells (fun _ ws => Quiet path ws) (Block.operandOrOne path key message fields) := by
  unfold Block.operandOrOne
  split
  · exact pure (.nil path)
  · exact pure (.nil path)
  · split
    · exact pure (.nil path)
    · exact warn_pure (.single hmessage)

theorem countField (path : Path) (fields : Json.Fields) :
    Tells (fun _ ws => Quiet path ws) (Block.countField path fields) :=
  operandOrOne (by decide +kernel) path "count" fields

theorem boundField (path : Path) (key : String) (fields : Json.Fields) :
    Tells (fun _ ws => Quiet path ws) (Block.boundField path key fields) := by
  refine operandOrOne (fun hsuffix => ?_) path key fields
  -- The message ends in a text that is longer than the one word.
  rw [String.toList_append] at hsuffix
  have htext := List.suffix_of_suffix_length_le hsuffix (List.suffix_append _ _) (by decide +kernel)
  exact absurd htext (by decide +kernel)

theorem repeatCount (path : Path) (fields : Json.Fields) :
    Tells (fun n ws => n = repeatValue fields ∧ Quiet path ws) (Block.repeatCount path fields) := by
  unfold Block.repeatCount repeatValue
  cases field? "count" fields with
  | none => exact pure ⟨rfl, .nil path⟩
  | some v =>
    cases h : wholeCount? v with
    | none =>
      simp only [h, Option.getD_none]
      exact warn_pure ⟨rfl, .single (by decide +kernel)⟩
    | some n =>
      simp only [h, Option.getD_some]
      exact pure ⟨rfl, .nil path⟩

theorem conditionField (path : Path) (fields : Json.Fields) :
    Tells (fun c ws => c = conditionValue fields ∧ Quiet path ws) (Block.conditionField path fields) := by
  unfold Block.conditionField conditionValue
  cases field? "condition" fields with
  | none => exact pure ⟨rfl, .nil path⟩
  | some v =>
    have hquiet : Quiet path (condition (path.field "condition") v).2 :=
      .of_field (under_condition (path.field "condition") v)
    simp only [condition_fst (.ofRoot "condition") (path.field "condition") v]
    refine (warnAll rfl).bind fun _ ws (hws : ws = _) => pure ⟨rfl, ?_⟩
    rw [hws, List.append_nil]
    exact hquiet

theorem demand (limit : Option Nat) (n : Nat) : Tells (fun _ ws => ws = []) (Block.demand limit n) := by
  unfold Block.demand
  cases limit with
  | none => exact pure rfl
  | some k =>
    refine ite (fun _ => ?_) fun _ => pure rfl
    intro l l' _ hrun
    cases hrun

theorem spend (limit : Option Nat) (rounds length : Nat) :
    Tells (fun _ ws => ws = []) (Block.spend limit rounds length) := by
  refine bind_silent (demand limit rounds) fun _ => bind_silent ?_ fun _ => bind_silent ?_ fun l =>
    demand limit l.spent
  · intro l l' _ hrun
    cases hrun
    exact ⟨[], (List.append_nil _).symm, rfl⟩
  · intro l l' _ hrun
    cases hrun
    exact ⟨[], (List.append_nil _).symm, rfl⟩

theorem writeOut (limit : Option Nat) (kind : Kind) (head : LoopHead) (body : List Statement) :
    Tells (fun ss ws => ss = (written head body).value ∧ ws = []) (Block.writeOut limit kind head body) := by
  unfold Block.writeOut written
  cases head.staticCount with
  | none => exact pure ⟨rfl, rfl⟩
  | some rounds =>
    refine bind_silent (fun l l' _ hrun => ?_) fun _ => ite (fun hempty => ?_) fun _ =>
      bind_silent (spend limit rounds body.length) fun _ => pure ⟨rfl, rfl⟩
    · cases hrun
      exact ⟨[], (List.append_nil _).symm, rfl⟩
    · have hnil : body = [] ∨ rounds = 0 := by simpa using hempty
      refine pure ⟨?_, rfl⟩
      rcases hnil with rfl | rfl <;> simp

end Tells

/-! ## Segments -/

def suits (fields : Json.Fields) : Kind → Bool
  | .repeatRange => (stringUnder? ["variable"] fields).isSome
  | .ifElse | .whileLoop => (conditionValue fields).isSome
  | .call => (stringUnder? ["functionName", "name"] fields).isSome
  | _ => true

def isKept : Value → Bool
  | .obj fields => (kind? fields).any (suits fields)
  | _ => false

theorem isKept_of_kind {fields : Json.Fields} {k : Kind} (h : kind? fields = some k) :
    isKept (.obj fields) = suits fields k := by
  rw [isKept, h, Option.any_some]

/-- What becomes of the block at a path: its statements, and how often warnings say that it is left out. -/
inductive Outcome (limit : Option Nat) (path : Path) : Value → List Statement → Nat → Prop
  | kept {fields : Json.Fields} {s : Statement} (kept : isKept (.obj fields) = true)
      (kind : kind? fields = some s.kind) : Outcome limit path (.obj fields) [s] 0
  | written {fields : Json.Fields} {body : List Statement} (kind : kind? fields = some .repeatTimes)
      (run : ∃ l l', (statements limit (path.field "body") 0 (bodyOf fields)).run l = .ok (body, l')) :
      Outcome limit path (.obj fields) (List.replicate (rounds fields) body).flatten 0
  | dropped {v : Value} (dropped : isKept v = false) : Outcome limit path v [] 1

/-- The statements and the warnings that the block at a path gives. -/
structure Segment (limit : Option Nat) (path : Path) (v : Value) (ss : List Statement)
    (ws : List Warning) : Prop where
  outcome : Outcome limit path v ss (drops path ws)
  under : Under path ws

section

variable {limit : Option Nat} {path : Path} {fields : Json.Fields} {ws : List Warning}

theorem Segment.kept {s : Statement} (hkept : isKept (.obj fields) = true)
    (hkind : kind? fields = some s.kind) (h : Quiet path ws) : Segment limit path (.obj fields) [s] ws :=
  ⟨h.drops ▸ .kept hkept hkind, h.under⟩

theorem Segment.written {body : List Statement} (hkind : kind? fields = some .repeatTimes)
    (hrun : ∃ l l', (statements limit (path.field "body") 0 (bodyOf fields)).run l = .ok (body, l'))
    (h : Quiet path ws) :
    Segment limit path (.obj fields) (List.replicate (rounds fields) body).flatten ws :=
  ⟨h.drops ▸ .written hkind hrun, h.under⟩

/-- Leaving a block out is said once, after what was said about its parts. -/
theorem Segment.drop {v : Value} {message : String} (hdropped : isKept v = false) (h : Quiet path ws)
    (hmessage : "ignored".toList <:+ message.toList) :
    Tells (fun ss ws' => Segment limit path v ss (ws ++ ws')) (Block.drop path message) := by
  refine Tells.warn_pure ⟨?_, h.under.append (.single path message)⟩
  have hdrop : drops path [warning path message] = 1 :=
    List.countP_eq_length.mpr (List.forall_mem_singleton.mpr (decide_eq_true ⟨rfl, hmessage⟩))
  rw [drops_append, h.drops, hdrop]
  exact .dropped hdropped

theorem Segment.drop_first {v : Value} {message : String} (hdropped : isKept v = false)
    (hmessage : "ignored".toList <:+ message.toList) :
    Tells (Segment limit path v) (Block.drop path message) :=
  Segment.drop hdropped (.nil path) hmessage

end

theorem statementsUnder?_eq (limit : Option Nat) (path : Path) (key : String) (fields : Json.Fields) :
    statementsUnder? limit path key fields =
      ((field? key fields).bind array?).map (statements limit path 0) :=
  eq_map_field? rfl (fun _ v _ => by cases v <;> rfl) fields

theorem clausesUnder?_eq (limit : Option Nat) (path : Path) (key : String) (fields : Json.Fields) :
    clausesUnder? limit path key fields =
      ((field? key fields).bind array?).map (clauses limit (path.field "elseIf") 0) :=
  eq_map_field? rfl (fun _ v _ => by cases v <;> rfl) fields

theorem orEmpty_statementsUnder (limit : Option Nat) (path : Path) (a b : String) (fields : Json.Fields) :
    orEmpty (statementsUnder? limit path a fields <|> statementsUnder? limit path b fields) =
      statements limit path 0 (listUnder [a, b] fields) := by
  have hnil : statements limit path 0 [] = pure [] := by simp only [statements]
  rw [statementsUnder?_eq, statementsUnder?_eq, orEmpty, ← hnil]
  exact getD_listUnder (statements limit path 0) a b fields

theorem orEmpty_clausesUnder (limit : Option Nat) (path : Path) (fields : Json.Fields) :
    orEmpty (clausesUnder? limit path "elseIf" fields <|> clausesUnder? limit path "elseIfClauses" fields) =
      clauses limit (path.field "elseIf") 0 (listUnder clauseKeys fields) := by
  have hnil : clauses limit (path.field "elseIf") 0 [] = pure [] := by simp only [clauses]
  rw [clausesUnder?_eq, clausesUnder?_eq, orEmpty, ← hnil]
  exact getD_listUnder (clauses limit (path.field "elseIf") 0) _ _ fields

section

variable {limit : Option Nat} {path : Path} {fields : Json.Fields}

theorem segment_counted {f : Expr → Statement} {k : Kind} (hkind : kind? fields = some k)
    (hsuits : suits fields k = true) (hf : ∀ e, (f e).kind = k) :
    Tells (Segment limit path (.obj fields)) (do return [f (← countField path fields)]) := by
  refine (Tells.countField path fields).bind fun e ws hws => .pure ?_
  rw [List.append_nil]
  exact .kept ((isKept_of_kind hkind).trans hsuits) (hf e ▸ hkind) hws

theorem segment_times (hkind : kind? fields = some .repeatTimes)
    (hbody : Tells (fun _ ws => Quiet path ws) (statements limit (path.field "body") 0 (bodyOf fields))) :
    Tells (Segment limit path (.obj fields)) (do
      let n ← repeatCount path fields
      writeOut limit .repeatTimes (.times n) (← statements limit (path.field "body") 0 (bodyOf fields))) := by
  refine (Tells.repeatCount path fields).bind ?_
  rintro n ws ⟨rfl, hcount⟩
  refine hbody.run.bind ?_
  rintro body ws' ⟨hrun, hquiet⟩
  refine (Tells.writeOut limit .repeatTimes _ body).mono ?_
  rintro ss _ ⟨rfl, rfl⟩
  simp only [written, staticCount_eq_rounds, List.append_nil]
  exact .written hkind hrun (hcount.append hquiet)

theorem segment_range (hkind : kind? fields = some .repeatRange)
    (hbody : Tells (fun _ ws => Quiet path ws) (statements limit (path.field "body") 0 (bodyOf fields))) :
    Tells (Segment limit path (.obj fields)) (match stringUnder? ["variable"] fields with
      | none => drop path "repeatRange has no variable; ignored"
      | some name => do
        let first ← boundField path "from" fields
        let last ← boundField path "to" fields
        let step ← boundField path "step" fields
        writeOut limit .repeatRange ⟨some name, first, last, step⟩
          (← statements limit (path.field "body") 0 (bodyOf fields))) := by
  have hkept : isKept (.obj fields) = (stringUnder? ["variable"] fields).isSome := isKept_of_kind hkind
  cases hname : stringUnder? ["variable"] fields with
  | none => exact Segment.drop_first (by rw [hkept, hname]; rfl) (by decide +kernel)
  | some name =>
    refine (Tells.boundField path "from" fields).bind fun first ws₁ h₁ => ?_
    refine (Tells.boundField path "to" fields).bind fun last ws₂ h₂ => ?_
    refine (Tells.boundField path "step" fields).bind fun step ws₃ h₃ => ?_
    refine hbody.bind fun body ws₄ h₄ => ?_
    refine (Tells.writeOut limit .repeatRange _ body).mono ?_
    rintro ss _ ⟨rfl, rfl⟩
    rw [written_variable, List.append_nil]
    exact .kept (by rw [hkept, hname]; rfl) hkind (h₁.append (h₂.append (h₃.append h₄)))

/-- A block that is kept if it has a condition; `next` reads the rest of it. -/
theorem segment_conditional {message : String} {next : Condition → Load (List Statement)} {k : Kind}
    (hkind : kind? fields = some k) (hsuits : suits fields k = (conditionValue fields).isSome)
    (hmessage : "ignored".toList <:+ message.toList)
    (hnext : ∀ c, Tells (fun ss ws => (∃ s : Statement, ss = [s] ∧ s.kind = k) ∧ Quiet path ws) (next c)) :
    Tells (Segment limit path (.obj fields)) (do
      match ← conditionField path fields with
      | none => drop path message
      | some c => next c) := by
  have hkept : isKept (.obj fields) = (conditionValue fields).isSome :=
    (isKept_of_kind hkind).trans hsuits
  refine (Tells.conditionField path fields).bind ?_
  rintro c? ws ⟨hc, hcondition⟩
  cases c? with
  | none => exact Segment.drop (by rw [hkept, ← hc]; rfl) hcondition hmessage
  | some c =>
    refine (hnext c).mono ?_
    rintro _ ws' ⟨⟨s, rfl, hs⟩, hquiet⟩
    exact .kept (by rw [hkept, ← hc]; rfl) (hs ▸ hkind) (hcondition.append hquiet)

/-- What a block gives, if the lists that it nests keep their warnings to themselves. -/
theorem segment_of_lists
    (hlists : ∀ (name : String) (keys : List String), Tells (fun _ ws => Under (path.field name) ws)
      (statements limit (path.field name) 0 (listUnder keys fields)))
    (hclauses : Tells (fun _ ws => Under (path.field "elseIf") ws)
      (clauses limit (path.field "elseIf") 0 (listUnder clauseKeys fields))) :
    Tells (Segment limit path (.obj fields)) (statement limit path (.obj fields)) := by
  simp only [statement, orEmpty_statementsUnder, orEmpty_clausesUnder]
  have hquiet (name : String) (keys : List String) : Tells (fun _ ws => Quiet path ws)
      (statements limit (path.field name) 0 (listUnder keys fields)) :=
    (hlists name keys).mono fun _ _ => .of_field
  cases htype : stringUnder? ["type"] fields with
  | none => exact Segment.drop_first (by rw [isKept, kind?, htype]; rfl) (by decide +kernel)
  | some type =>
    have hkind : kind? fields = kindOf? type := by rw [kind?, htype]; rfl
    have hplain {s : Statement} (hs : kindOf? type = some s.kind) (hsuits : suits fields s.kind = true) :
        Tells (Segment limit path (.obj fields)) (pure [s]) :=
      .pure (.kept ((isKept_of_kind (hkind.trans hs)).trans hsuits) (hkind.trans hs) (.nil path))
    refine .ite ?forward fun hforward => .ite ?left fun hleft => .ite ?right fun hright =>
      .ite ?back fun hback => .ite ?collect fun hcollect => .ite ?putBox fun hputBox =>
      .ite ?takeBox fun htakeBox => .ite ?times fun hrepeat => .ite ?range fun hrange =>
      .ite ?branch fun hif => .ite ?loop fun hwhile => .ite ?call fun hcall => ?other
    case forward =>
      intro h
      have htype' : type = "forward" ∨ type = "moveForward" := by simpa using h
      rcases htype' with rfl | rfl <;> exact segment_counted hkind rfl fun _ => rfl
    case left => rintro rfl; exact hplain rfl rfl
    case right => rintro rfl; exact hplain rfl rfl
    case back =>
      intro h
      have htype' : type = "turnBack" ∨ type = "turnAround" := by simpa using h
      rcases htype' with rfl | rfl <;> exact hplain rfl rfl
    case collect => rintro rfl; exact segment_counted hkind rfl fun _ => rfl
    case putBox => rintro rfl; exact segment_counted hkind rfl fun _ => rfl
    case takeBox => rintro rfl; exact segment_counted hkind rfl fun _ => rfl
    case times => rintro rfl; exact segment_times hkind (hquiet "body" _)
    case range => rintro rfl; exact segment_range hkind (hquiet "body" _)
    case branch =>
      rintro rfl
      refine segment_conditional hkind rfl (by decide +kernel) fun c => ?_
      refine (hquiet "then" _).bind fun thenBody ws₁ h₁ => ?_
      refine (hclauses.mono fun _ _ => Quiet.of_field).bind fun elseIfs ws₂ h₂ => ?_
      refine (hquiet "else" _).bind fun elseBody ws₃ h₃ => .pure ⟨⟨_, rfl, rfl⟩, ?_⟩
      rw [List.append_nil]
      exact h₁.append (h₂.append h₃)
    case loop =>
      rintro rfl
      refine segment_conditional hkind rfl (by decide +kernel) fun c => ?_
      refine (hquiet "body" _).bind fun body ws hws => .pure ⟨⟨_, rfl, rfl⟩, ?_⟩
      rw [List.append_nil]
      exact hws
    case call =>
      rintro rfl
      have hkept : isKept (.obj fields) = (stringUnder? ["functionName", "name"] fields).isSome :=
        isKept_of_kind hkind
      cases hname : stringUnder? ["functionName", "name"] fields with
      | none => exact Segment.drop_first (by rw [hkept, hname]; rfl) (by decide +kernel)
      | some name => exact hplain rfl (by rw [Statement.kind, suits, hname]; rfl)
    case other =>
      have hunknown : kindOf? type = none := by
        simp only [Bool.or_eq_true, decide_eq_true_eq, not_or] at hforward hback
        rw [kindOf?, if_neg hforward.2, if_neg hback.2]
        refine List.find?_eq_none.mpr fun k _ => ?_
        rw [beq_iff_eq]
        rintro rfl
        cases k <;> simp_all [Kind.tag]
      refine Segment.drop_first (by rw [isKept, hkind, hunknown]; rfl) ?_
      have hword : "ignored".toList <:+ "'; ignored".toList := by decide +kernel
      rw [String.toList_append]
      exact hword.trans (List.suffix_append _ _)

end

/-! ## Lists of blocks -/

section

variable (limit : Option Nat)

mutual

theorem under_statements (path : Path) (i : Nat) (vs : List Value) :
    Tells (fun _ ws => Under path ws) (statements limit path i vs) := by
  match vs with
  | [] =>
    simp only [statements]
    exact .pure (.nil path)
  | v :: rest =>
    have hv := segment_statement (path.index i) v
    have hrest := under_statements path (i + 1) rest
    simp only [statements]
    refine hv.bind fun ss ws hws => hrest.bind fun ss' ws' hws' => .pure ?_
    rw [List.append_nil]
    exact hws.under.of_extend.append hws'
termination_by sizeOf vs

theorem segment_statement (path : Path) (v : Value) :
    Tells (Segment limit path v) (statement limit path v) := by
  match v with
  | .obj fields =>
    exact segment_of_lists (fun name keys => under_statements (path.field name) 0 (listUnder keys fields))
      (under_clauses (path.field "elseIf") 0 (listUnder clauseKeys fields))
  | .null | .bool _ | .num _ | .str _ | .arr _ | .unreadable =>
    simp only [statement]
    exact Segment.drop_first rfl (by decide +kernel)
termination_by sizeOf v
decreasing_by
  · exact sizeOf_listUnder_lt keys fields
  · exact sizeOf_listUnder_lt clauseKeys fields

theorem under_clauses (path : Path) (i : Nat) (vs : List Value) :
    Tells (fun _ ws => Under path ws) (clauses limit path i vs) := by
  match vs with
  | [] =>
    simp only [clauses]
    exact .pure (.nil path)
  | v :: rest =>
    have hv := under_clause (path.index i) v
    have hrest := under_clauses path (i + 1) rest
    simp only [clauses]
    refine hv.bind fun c ws hws => hrest.bind fun cs ws' hws' => .pure ?_
    rw [List.append_nil]
    exact hws.of_extend.append hws'
termination_by sizeOf vs

theorem under_clause (path : Path) (v : Value) :
    Tells (fun _ ws => Under path ws) (clause limit path v) := by
  match v with
  | .obj fields =>
    have hbody := under_statements (path.field "then") 0 (listUnder ["then", "thenActions"] fields)
    simp only [clause, orEmpty_statementsUnder]
    refine (Tells.conditionField path fields).bind ?_
    rintro c? ws ⟨-, hcondition⟩
    cases c? with
    | none => exact .warn_pure (hcondition.under.append (.single path _))
    | some c =>
      refine hbody.bind fun body ws' hws' => .pure ?_
      rw [List.append_nil]
      exact hcondition.under.append hws'.of_extend
  | .null | .bool _ | .num _ | .str _ | .arr _ | .unreadable =>
    simp only [clause]
    exact .warn_pure (.single path _)
termination_by sizeOf v
decreasing_by
  exact sizeOf_listUnder_lt _ fields

end

end

/-- The segments of a list of blocks of which the first has the index `i`. -/
structure Segments (limit : Option Nat) (path : Path) (i : Nat) (vs : List Value)
    (segments : List (List Statement × List Warning)) : Prop where
  length : segments.length = vs.length
  segment : ∀ (j : Nat) (v : Value) (segment : List Statement × List Warning), vs[j]? = some v →
    segments[j]? = some segment → Segment limit (path.index (i + j)) v segment.1 segment.2

theorem segments_statements (limit : Option Nat) (path : Path) (i : Nat) (vs : List Value) :
    Tells (fun ss ws => ∃ segments, Segments limit path i vs segments ∧
      ss = segments.flatMap Prod.fst ∧ ws = segments.flatMap Prod.snd) (statements limit path i vs) := by
  induction vs generalizing i with
  | nil =>
    simp only [statements]
    exact .pure ⟨[], ⟨rfl, fun j v _ hv => by cases hv⟩, rfl, rfl⟩
  | cons v rest ih =>
    simp only [statements]
    refine (segment_statement limit (path.index i) v).bind fun ss ws hv => (ih (i + 1)).bind ?_
    rintro _ _ ⟨segments, hrest, rfl, rfl⟩
    refine .pure ⟨(ss, ws) :: segments, ⟨congrArg (· + 1) hrest.length, ?_⟩, rfl, ?_⟩
    · rintro (_ | j) v' segment hv' hsegment
      · cases hv'
        cases hsegment
        exact hv
      · have h := hrest.segment j v' segment hv' hsegment
        rwa [Nat.add_assoc, Nat.add_comm 1 j] at h
    · rw [List.append_nil, List.flatMap_cons]

/-- The statements of a list are those of its blocks, one block after the other, and so are the warnings
that loading adds. A block gives one statement, or its body as often as it says, or one warning that it is
left out. -/
theorem segments_of_statements {limit : Option Nat} {path : Path} {vs : List Value} {l l' : Ledger}
    {ss : List Statement} (h : (statements limit path 0 vs).run l = .ok (ss, l')) :
    ∃ segments : List (List Statement × List Warning), segments.length = vs.length ∧
      ss = segments.flatMap Prod.fst ∧ l'.warnings = l.warnings ++ segments.flatMap Prod.snd ∧
      ∀ (i : Nat) (v : Value) (segment : List Statement × List Warning), vs[i]? = some v →
        segments[i]? = some segment → Segment limit (path.index i) v segment.1 segment.2 := by
  obtain ⟨ws, hws, segments, hsegments, hss, rfl⟩ := segments_statements limit path 0 vs l l' ss h
  refine ⟨segments, hsegments.length, hss, hws, fun i v segment hv hsegment => ?_⟩
  have hi := hsegments.segment i v segment hv hsegment
  rwa [Nat.zero_add] at hi

def jumpBlock : Value := .obj [("type", .str "jump")]

/-- A block that is kept, though each of its branches but the first leaves something out. -/
def forkBlock : Value :=
  .obj [("type", .str "if"), ("condition", .obj [("type", .str "sensor"), ("functionName", .str "hasItem")]),
    ("then", .arr [Program.turnBlock]),
    ("elseIf", .arr [.obj [("condition", .obj [("type", .str "sensor"), ("functionName", .str "hasRed")]),
      ("then", .arr [.num (.int 7), Program.turnBlock])], .null]),
    ("else", .arr [jumpBlock])]

/-- Two blocks that are kept, one that is written out with a block missing in it, and two that are left out. -/
def remnants : List Value :=
  [Program.turnBlock, Program.repeatBlock 2 [Program.turnBlock, jumpBlock],
    .obj [("type", .str "if"), ("condition", .num (.int 1))], .num (.int 7), forkBlock]

theorem segments_remnants :
    ∃ ss l', (statements (some 100) (.ofRoot "actions") 0 remnants).run ⟨[], .empty, 0⟩ = .ok (ss, l') ∧
      ss.length = 4 ∧ l'.warnings = [
        ⟨"actions[1].body[1]", "unknown block type 'jump'; ignored"⟩,
        ⟨"actions[2].condition", "condition is not an object"⟩,
        ⟨"actions[2]", "if block has no valid condition; ignored"⟩,
        ⟨"actions[3]", "block is not an object; ignored"⟩,
        ⟨"actions[4].elseIf[0].then[0]", "block is not an object; ignored"⟩,
        ⟨"actions[4].elseIf[1]", "elseIf clause is not an object; ignored"⟩,
        ⟨"actions[4].else[0]", "unknown block type 'jump'; ignored"⟩] ∧
      ∃ segments : List (List Statement × List Warning), segments.length = 5 ∧
        ss = segments.flatMap Prod.fst ∧ l'.warnings = segments.flatMap Prod.snd ∧
        ∀ (i : Nat) (v : Value) (segment : List Statement × List Warning), remnants[i]? = some v →
          segments[i]? = some segment →
            Segment (some 100) ((Path.ofRoot "actions").index i) v segment.1 segment.2 := by
  obtain ⟨ss, l', hrun⟩ : ∃ ss l', (statements (some 100) (.ofRoot "actions") 0 remnants).run
      ⟨[], .empty, 0⟩ = .ok (ss, l') := ⟨_, _, rfl⟩
  have hfound : ((statements (some 100) (.ofRoot "actions") 0 remnants).run ⟨[], .empty, 0⟩).toOption.map
      (fun r => (r.1.length, r.2.warnings)) = some (4, [
        ⟨"actions[1].body[1]", "unknown block type 'jump'; ignored"⟩,
        ⟨"actions[2].condition", "condition is not an object"⟩,
        ⟨"actions[2]", "if block has no valid condition; ignored"⟩,
        ⟨"actions[3]", "block is not an object; ignored"⟩,
        ⟨"actions[4].elseIf[0].then[0]", "block is not an object; ignored"⟩,
        ⟨"actions[4].elseIf[1]", "elseIf clause is not an object; ignored"⟩,
        ⟨"actions[4].else[0]", "unknown block type 'jump'; ignored"⟩]) := by
    decide +kernel
  rw [hrun] at hfound
  obtain ⟨hlength, hwarnings⟩ := Prod.mk.inj (Option.some.inj hfound)
  exact ⟨ss, l', hrun, hlength, hwarnings, segments_of_statements hrun⟩

end Block

end BlockRobot
