import BlockRobot.Proofs.Run.Unfolding

/-!
# Structural semantics

`Runs` says what a program does by its structure, without a queue: statements run from left to
right, a conditional runs one of its branches, a loop runs its body again and again. `runs_iff_unfolds`
ties it to the queue, and `run_iff_runs` to the runs of a machine.
-/

namespace BlockRobot

open Machine (action? repetitions shortage? shortage_eq_none_iff action_eq_collect branch expansion Expands
  Unfolds)

def Bindings.bind (env : Bindings) (name : Option String) (x : Float) : Bindings :=
  match name with
  | some name => env.insert name x
  | none => env

/-- What there is to run. `rounds` are the `n` rounds of a counted loop from its round `i` on, and
`times` are equal actions in a row. -/
inductive Task where
  | block (env : Bindings) (ss : List Statement)
  | statement (env : Bindings) (s : Statement)
  | rounds (name : Option String) (span : Span Float) (env : Bindings) (body : List Statement) (i n : Nat)
  | times (a : Action) (n : Nat)
  | both (first second : Task)

/-- `Runs program task σ t e`: in the scene `σ`, the task leaves the marks `t` and ends with `e`. -/
inductive Runs (program : Program) : Task → Scene → List Mark → Ending → Prop where
  | both {a b : Task} {σ τ : Scene} {t u : List Mark} {e : Ending}
      (first : Runs program a σ t (.done τ)) (second : Runs program b τ u e) :
      Runs program (.both a b) σ (t ++ u) e
  | bothFailed {a b : Task} {σ τ : Scene} {t : List Mark} {f : Failure}
      (first : Runs program a σ t (.failed f τ)) : Runs program (.both a b) σ t (.failed f τ)
  | blockNil {env : Bindings} {σ : Scene} : Runs program (.block env []) σ [] (.done σ)
  | blockCons {env : Bindings} {s : Statement} {ss : List Statement} {σ : Scene} {t : List Mark}
      {e : Ending} (goes : Runs program (.both (.statement env s) (.block env ss)) σ t e) :
      Runs program (.block env (s :: ss)) σ t e
  -- A conditional runs the first branch whose condition holds.
  | branch {env : Bindings} {c₀ c : Condition} {thenBody elseBody body : List Statement}
      {elseIfs before after : List (Condition × List Statement)} {σ : Scene} {t : List Mark}
      {e : Ending} (split : (c₀, thenBody) :: elseIfs = before ++ (c, body) :: after)
      (fail : ∀ b ∈ before, b.1.holds σ.world env = false) (holds : c.holds σ.world env = true)
      (goes : Runs program (.block env body) σ t e) :
      Runs program (.statement env (.ifElse c₀ thenBody elseIfs elseBody)) σ (.entered .ifElse :: t) e
  | otherwise {env : Bindings} {c₀ : Condition} {thenBody elseBody : List Statement}
      {elseIfs : List (Condition × List Statement)} {σ : Scene} {t : List Mark} {e : Ending}
      (fail : ∀ b ∈ (c₀, thenBody) :: elseIfs, b.1.holds σ.world env = false)
      (goes : Runs program (.block env elseBody) σ t e) :
      Runs program (.statement env (.ifElse c₀ thenBody elseIfs elseBody)) σ (.entered .ifElse :: t) e
  | whileDone {env : Bindings} {c : Condition} {body : List Statement} {σ : Scene}
      (fails : c.holds σ.world env = false) :
      Runs program (.statement env (.whileLoop c body)) σ [.entered .whileLoop] (.done σ)
  | whileEmpty {env : Bindings} {c : Condition} {σ : Scene} (holds : c.holds σ.world env = true) :
      Runs program (.statement env (.whileLoop c [])) σ [.entered .whileLoop]
        (.failed ⟨none, .emptyWhileBody⟩ σ)
  | whileAgain {env : Bindings} {c : Condition} {body : List Statement} {σ : Scene} {t : List Mark}
      {e : Ending} (holds : c.holds σ.world env = true) (nonempty : body ≠ [])
      (goes : Runs program (.both (.block env body) (.statement env (.whileLoop c body))) σ t e) :
      Runs program (.statement env (.whileLoop c body)) σ (.entered .whileLoop :: t) e
  -- The bounds of a counted loop are fixed on entry, and its bindings end with each round.
  | rangeSkipped {env : Bindings} {head : LoopHead} {body : List Statement} {σ : Scene}
      (missing : head.first.value? σ.world env = none ∨ head.last.value? σ.world env = none ∨
        head.step.value? σ.world env = none) :
      Runs program (.statement env (.repeatRange head body)) σ [.entered .repeatRange] (.done σ)
  | rangeStuck {env : Bindings} {head : LoopHead} {body : List Statement} {σ : Scene}
      {first final step : Float} (hfirst : head.first.value? σ.world env = some first)
      (hfinal : head.last.value? σ.world env = some final)
      (hstep : head.step.value? σ.world env = some step) (zero : (step == 0) = true) :
      Runs program (.statement env (.repeatRange head body)) σ [.entered .repeatRange]
        (.failed ⟨none, .zeroStep (head.counter?.getD "")⟩ σ)
  | range {env : Bindings} {head : LoopHead} {body : List Statement} {σ : Scene}
      {first final step : Float} {t : List Mark} {e : Ending}
      (hfirst : head.first.value? σ.world env = some first)
      (hfinal : head.last.value? σ.world env = some final)
      (hstep : head.step.value? σ.world env = some step) (nonzero : (step == 0) = false)
      (goes : Runs program (.rounds head.counter? ⟨first, final, step⟩ env body 0
        ((⟨first, final, step⟩ : Span Float).count.getD 0)) σ t e) :
      Runs program (.statement env (.repeatRange head body)) σ (.entered .repeatRange :: t) e
  | roundsNil {name : Option String} {span : Span Float} {env : Bindings} {body : List Statement}
      {i : Nat} {σ : Scene} : Runs program (.rounds name span env body i 0) σ [] (.done σ)
  | roundsCons {name : Option String} {span : Span Float} {env : Bindings} {body : List Statement}
      {i n : Nat} {σ : Scene} {t : List Mark} {e : Ending}
      (goes : Runs program (.both (.block (env.bind name (span.member i)) body)
        (.rounds name span env body (i + 1) n)) σ t e) :
      Runs program (.rounds name span env body i (n + 1)) σ t e
  -- A function runs under the bindings of its caller.
  | call {env : Bindings} {name : String} {f : Function} {σ : Scene} {t : List Mark} {e : Ending}
      (defined : program.function? name = some f) (goes : Runs program (.block env f.body) σ t e) :
      Runs program (.statement env (.call name)) σ (.entered .call :: t) e
  | callUnknown {env : Bindings} {name : String} {σ : Scene}
      (undefined : program.function? name = none) :
      Runs program (.statement env (.call name)) σ [.entered .call]
        (.failed ⟨none, .unknownFunction name⟩ σ)
  -- The rule on boxes comes first, then the count, then what there is to collect.
  | boxTwice {env : Bindings} {s : Statement} {a : Action} {count : Option Expr} {σ : Scene}
      (acts : action? s = some (a, count)) (box : a.kind.isBoxAction = true)
      (again : σ.last = some a.kind) :
      Runs program (.statement env s) σ [.entered s.kind]
        (.failed ⟨some a, .consecutiveBoxAction a.kind⟩ σ)
  | skipped {env : Bindings} {s : Statement} {a : Action} {count : Option Expr} {σ : Scene}
      (acts : action? s = some (a, count)) (free : a.kind.isBoxAction = false ∨ σ.last ≠ some a.kind)
      (missing : repetitions σ.world env count = none) :
      Runs program (.statement env s) σ [.entered s.kind] (.done σ)
  | short {env : Bindings} {count : Expr} {colors : List String} {n : Nat} {σ : Scene}
      (counted : repetitions σ.world env (some count) = some n)
      (lacks : σ.world.here.matching colors < n) :
      Runs program (.statement env (.collect count colors)) σ [.entered .collect]
        (.failed ⟨some (.collect colors),
          .insufficientItems (min n 4294967295) (σ.world.here.matching colors) colors⟩ σ)
  | acts {env : Bindings} {s : Statement} {a : Action} {count : Option Expr} {n : Nat} {σ : Scene}
      {t : List Mark} {e : Ending} (acts : action? s = some (a, count))
      (free : a.kind.isBoxAction = false ∨ σ.last ≠ some a.kind)
      (counted : repetitions σ.world env count = some n)
      (enough : ∀ colors, a = .collect colors → n ≤ σ.world.here.matching colors)
      (goes : Runs program (.times a n) ⟨σ.world, if 0 < n then some a.kind else σ.last⟩ t e) :
      Runs program (.statement env s) σ (.entered s.kind :: t) e
  | timesNil {a : Action} {σ : Scene} : Runs program (.times a 0) σ [] (.done σ)
  | timesCons {a : Action} {n : Nat} {σ : Scene} {w : World} {t : List Mark} {e : Ending}
      (applied : a.apply σ.world = .ok w) (goes : Runs program (.times a n) ⟨w, σ.last⟩ t e) :
      Runs program (.times a (n + 1)) σ (.did a :: t) e
  | refused {a : Action} {n : Nat} {σ : Scene} {r : Refusal} (applied : a.apply σ.world = .error r) :
      Runs program (.times a (n + 1)) σ [] (.failed ⟨some a, .refused r⟩ σ)

variable {program : Program} {σ : Scene} {t : List Mark} {e : Ending}

/-! ## Branches and shortages -/

theorem branch_of_holds {w : World} {env : Bindings} {c : Condition} {body elseBody : List Statement}
    {before after : List (Condition × List Statement)}
    (hfail : ∀ b ∈ before, b.1.holds w env = false) (hholds : c.holds w env = true) :
    branch w env elseBody (before ++ (c, body) :: after) = body := by
  induction before with
  | nil => simp [branch, hholds]
  | cons b rest ih =>
    obtain ⟨c', body'⟩ := b
    have hc : c'.holds w env = false := hfail (c', body') (by simp)
    rw [List.cons_append, branch, if_neg (by simp [hc])]
    exact ih fun b hb => hfail b (List.mem_cons_of_mem _ hb)

theorem branch_of_fail {w : World} {env : Bindings} {elseBody : List Statement}
    {branches : List (Condition × List Statement)}
    (hfail : ∀ b ∈ branches, b.1.holds w env = false) : branch w env elseBody branches = elseBody := by
  induction branches with
  | nil => rfl
  | cons b rest ih =>
    obtain ⟨c, body⟩ := b
    have hc : c.holds w env = false := hfail (c, body) (by simp)
    rw [branch, if_neg (by simp [hc])]
    exact ih fun b hb => hfail b (List.mem_cons_of_mem _ hb)

theorem first_holds_or_fail (w : World) (env : Bindings) (branches : List (Condition × List Statement)) :
    (∃ before c body after, branches = before ++ (c, body) :: after ∧
      (∀ b ∈ before, b.1.holds w env = false) ∧ c.holds w env = true) ∨
    ∀ b ∈ branches, b.1.holds w env = false := by
  induction branches with
  | nil => exact .inr (by simp)
  | cons b rest ih =>
    obtain ⟨c, body⟩ := b
    cases hc : c.holds w env with
    | true => exact .inl ⟨[], c, body, rest, rfl, by simp, hc⟩
    | false =>
      have hcons : ∀ {bs : List (Condition × List Statement)},
          (∀ b ∈ bs, b.1.holds w env = false) → ∀ b ∈ (c, body) :: bs, b.1.holds w env = false := by
        intro bs hbs b hb
        rcases List.mem_cons.mp hb with rfl | hb
        · exact hc
        · exact hbs b hb
      rcases ih with ⟨before, c', body', after, rfl, hfail, hholds⟩ | hfail
      · exact .inl ⟨(c, body) :: before, c', body', after, rfl, hcons hfail, hholds⟩
      · exact .inr (hcons hfail)

/-! ## Tasks unfold -/

def Task.instructions : Task → List Instruction
  | .block env ss => nodesIn env ss
  | .statement env s => [.node s env]
  | .rounds name span env body i n =>
    (List.range' i n).flatMap fun i => nodesIn (env.bind name (span.member i)) body
  | .times a n => List.replicate n (.act a)
  | .both a b => a.instructions ++ b.instructions

theorem rounds_eq_instructions (name : Option String) (span : Span Float) (env : Bindings)
    (body : List Statement) (n : Nat) :
    Machine.rounds name span env body n = (Task.rounds name span env body 0 n).instructions := by
  rw [Machine.rounds, Task.instructions, List.range_eq_range']
  rfl

theorem instructions_again (env : Bindings) (body : List Statement) (s : Statement) :
    (Task.both (.block env body) (.statement env s)).instructions = nodesIn env (body ++ [s]) := by
  simp [Task.instructions, nodesIn]

/-- What comes after an ending: a failure is the end of all, otherwise the rest of a queue unfolds. -/
def Ending.Continues (e : Ending) (program : Program) (rest : List Instruction) (u : List Mark)
    (e' : Ending) : Prop :=
  match e with
  | .done τ => Unfolds program rest τ u e'
  | .failed f τ => u = [] ∧ e' = .failed f τ

/-- What runs by structure unfolds, in front of any other instructions. -/
theorem Runs.unfolds {task : Task} (h : Runs program task σ t e) {rest : List Instruction}
    {u : List Mark} {e' : Ending} (hc : e.Continues program rest u e') :
    Unfolds program (task.instructions ++ rest) σ (t ++ u) e' := by
  -- On the derivation, for every rest of the queue: what a task nests comes in front of that.
  induction h generalizing rest u e' with
  | both _ _ ih₁ ih₂ =>
    rw [Task.instructions, List.append_assoc, List.append_assoc]
    exact ih₁ (ih₂ hc)
  | bothFailed _ ih =>
    rw [Task.instructions, List.append_assoc]
    exact ih hc
  | blockNil => exact hc
  | blockCons _ ih => exact ih hc
  | @branch env c₀ c thenBody elseBody body elseIfs before after σ _ _ split fail holds _ ih =>
    have hx : expansion program σ.world env σ.last (.ifElse c₀ thenBody elseIfs elseBody) =
        .ok (.ofNodes σ.last env body) := by
      rw [expansion, split, branch_of_holds fail holds]
    exact .node hx (ih hc)
  | @otherwise env c₀ thenBody elseBody elseIfs σ _ _ fail _ ih =>
    have hx : expansion program σ.world env σ.last (.ifElse c₀ thenBody elseIfs elseBody) =
        .ok (.ofNodes σ.last env elseBody) := by
      rw [expansion, branch_of_fail fail]
    exact .node hx (ih hc)
  | whileDone fails => exact .node (Expands.whileDone fails).eq hc
  | whileEmpty holds =>
    obtain ⟨rfl, rfl⟩ := hc
    exact .failed (Expands.whileEmpty holds).eq
  | whileAgain holds nonempty _ ih =>
    refine .node (Expands.whileAgain holds nonempty).eq ?_
    rw [Expansion.ofNodes, ← instructions_again]
    exact ih hc
  | rangeSkipped missing => exact .node (Expands.rangeSkipped missing).eq hc
  | rangeStuck hfirst hfinal hstep zero =>
    obtain ⟨rfl, rfl⟩ := hc
    exact .failed (Expands.rangeStuck hfirst hfinal hstep zero).eq
  | range hfirst hfinal hstep nonzero _ ih =>
    refine .node (Expands.range hfirst hfinal hstep nonzero).eq ?_
    rw [rounds_eq_instructions]
    exact ih hc
  | roundsNil => exact hc
  | @roundsCons name span env body i n σ _ _ _ ih =>
    have hi : (Task.rounds name span env body i (n + 1)).instructions =
        (Task.both (.block (env.bind name (span.member i)) body)
          (.rounds name span env body (i + 1) n)).instructions := by
      simp [Task.instructions, List.range'_succ]
    rw [hi]
    exact ih hc
  | call defined _ ih => exact .node (Expands.call defined).eq (ih hc)
  | callUnknown undefined =>
    obtain ⟨rfl, rfl⟩ := hc
    exact .failed (Expands.callUnknown undefined).eq
  | boxTwice acts box again =>
    obtain ⟨rfl, rfl⟩ := hc
    exact .failed (Expands.boxTwice acts box again).eq
  | skipped acts free missing => exact .node (Expands.skipped acts free missing).eq hc
  | @short env count colors n σ counted lacks =>
    obtain ⟨rfl, rfl⟩ := hc
    have hshort : shortage? σ.world (.collect colors) n =
        some (.insufficientItems (min n 4294967295) (σ.world.here.matching colors) colors) :=
      if_pos lacks
    have hacts : action? (.collect count colors) = some (.collect colors, some count) := rfl
    exact .failed (Expands.short hacts (.inl rfl) counted hshort).eq
  | acts acts free counted enough _ ih =>
    exact .node (Expands.acts acts free counted (shortage_eq_none_iff.mpr enough)).eq (ih hc)
  | timesNil => exact hc
  | timesCons applied _ ih =>
    rw [Task.instructions, List.replicate_succ]
    exact .act applied (ih hc)
  | refused applied =>
    obtain ⟨rfl, rfl⟩ := hc
    rw [Task.instructions, List.replicate_succ]
    exact .refused applied

/-! ## Queues as tasks -/

def Task.ofInstruction : Instruction → Task
  | .node s env => .statement env s
  | .act a => .times a 1

def Task.ofQueue : List Instruction → Task
  | [] => .block .empty []
  | i :: rest => .both (ofInstruction i) (ofQueue rest)

theorem Runs.both_mono {a a' b b' : Task} (h : Runs program (.both a b) σ t e)
    (ha : ∀ {σ t e}, Runs program a σ t e → Runs program a' σ t e)
    (hb : ∀ {σ t e}, Runs program b σ t e → Runs program b' σ t e) :
    Runs program (.both a' b') σ t e := by
  cases h with
  | both first second => exact .both (ha first) (hb second)
  | bothFailed first => exact .bothFailed (ha first)

theorem Runs.both_assoc {a b c : Task} (h : Runs program (.both a (.both b c)) σ t e) :
    Runs program (.both (.both a b) c) σ t e := by
  cases h with
  | both first second =>
    cases second with
    | both second third =>
      rw [← List.append_assoc]
      exact .both (.both first second) third
    | bothFailed second => exact .bothFailed (.both first second)
  | bothFailed first => exact .bothFailed (.bothFailed first)

theorem Runs.of_both_nil {a : Task} {env : Bindings} (h : Runs program (.both a (.block env [])) σ t e) :
    Runs program a σ t e := by
  cases h with
  | both first second =>
    cases second
    rw [List.append_nil]
    exact first
  | bothFailed first => exact first

theorem Runs.ofQueue_append {xs ys : List Instruction}
    (h : Runs program (.ofQueue (xs ++ ys)) σ t e) :
    Runs program (.both (.ofQueue xs) (.ofQueue ys)) σ t e := by
  induction xs generalizing σ t e with
  | nil => exact .both .blockNil h
  | cons x xs ih => exact .both_assoc (h.both_mono id ih)

theorem Runs.block_of_ofQueue {env : Bindings} {ss : List Statement}
    (h : Runs program (.ofQueue (nodesIn env ss)) σ t e) : Runs program (.block env ss) σ t e := by
  induction ss generalizing σ t e with
  | nil => cases h; exact .blockNil
  | cons s ss ih => exact .blockCons (h.both_mono id ih)

theorem Runs.of_ofQueue {task : Task} (h : Runs program (.ofQueue task.instructions) σ t e) :
    Runs program task σ t e := by
  induction task generalizing σ t e with
  | block env ss => exact h.block_of_ofQueue
  | statement env s => exact h.of_both_nil
  | rounds name span env body i n =>
    induction n generalizing i σ t e with
    | zero => cases h; exact .roundsNil
    | succ n ih =>
      rw [Task.instructions, List.range'_succ, List.flatMap_cons] at h
      exact .roundsCons (h.ofQueue_append.both_mono Runs.block_of_ofQueue (ih (i + 1)))
  | times a n =>
    induction n generalizing σ t e with
    | zero => cases h; exact .timesNil
    | succ n ih =>
      rw [Task.instructions, List.replicate_succ] at h
      cases h with
      | both first second =>
        cases first with
        | timesCons applied done =>
          cases done
          exact .timesCons applied (ih second)
      | bothFailed first =>
        cases first with
        | timesCons _ done => cases done
        | refused applied => exact .refused applied
  | both a b iha ihb => exact h.ofQueue_append.both_mono iha ihb

theorem Runs.of_expansion {env : Bindings} {s : Statement} {x : Expansion}
    (hx : expansion program σ.world env σ.last s = .ok x)
    (h : Runs program (.ofQueue x.children) ⟨σ.world, x.last⟩ t e) :
    Runs program (.statement env s) σ (.entered s.kind :: t) e := by
  cases Expands.of_eq hx with
  | @ifElse c thenBody elseBody elseIfs =>
    have hb := h.block_of_ofQueue
    rcases first_holds_or_fail σ.world env ((c, thenBody) :: elseIfs) with
      ⟨before, c', body, after, hsplit, hfail, hholds⟩ | hfail
    · rw [hsplit, branch_of_holds hfail hholds] at hb
      exact .branch hsplit hfail hholds hb
    · rw [branch_of_fail hfail] at hb
      exact .otherwise hfail hb
  | whileDone fails => cases h; exact .whileDone fails
  | @whileAgain c body holds nonempty =>
    have hb : Runs program (.both (.block env body) (.statement env (.whileLoop c body))) σ t e := by
      refine Runs.of_ofQueue ?_
      rw [instructions_again]
      exact h
    exact .whileAgain holds nonempty hb
  | rangeSkipped missing => cases h; exact .rangeSkipped missing
  | range hfirst hfinal hstep nonzero =>
    rw [rounds_eq_instructions] at h
    exact .range hfirst hfinal hstep nonzero h.of_ofQueue
  | call defined => exact .call defined h.block_of_ofQueue
  | skipped acts free missing => cases h; exact .skipped acts free missing
  | @acts _ a _ n acts free counted enough =>
    have ht : Runs program (.times a n) _ t e := Runs.of_ofQueue h
    exact .acts acts free counted (shortage_eq_none_iff.mp enough) ht

theorem Runs.of_failed_expansion {env : Bindings} {s : Statement} {f : Failure}
    (hx : expansion program σ.world env σ.last s = .error f) :
    Runs program (.statement env s) σ [.entered s.kind] (.failed f σ) := by
  cases Expands.of_eq hx with
  | whileEmpty holds => exact .whileEmpty holds
  | rangeStuck hfirst hfinal hstep zero => exact .rangeStuck hfirst hfinal hstep zero
  | callUnknown undefined => exact .callUnknown undefined
  | boxTwice acts box again => exact .boxTwice acts box again
  | short acts free counted lacks =>
    obtain ⟨colors, rfl, hlt, rfl⟩ := Machine.shortage_eq lacks
    obtain ⟨count, rfl, rfl⟩ := action_eq_collect acts
    exact .short counted hlt

theorem Runs.of_unfolds {q : List Instruction} (h : Unfolds program q σ t e) :
    Runs program (.ofQueue q) σ t e := by
  induction h with
  | done => exact .blockNil
  | act applied _ ih => exact .both (.timesCons applied .timesNil) ih
  | refused applied => exact .bothFailed (.refused applied)
  | node expands _ ih =>
    -- The queue mixes what the statement expands to with the rest, and has to be taken apart.
    cases ih.ofQueue_append with
    | both first second => exact .both (.of_expansion expands first) second
    | bothFailed first => exact .bothFailed (.of_expansion expands first)
  | failed expands => exact .bothFailed (.of_failed_expansion expands)

theorem runs_iff_unfolds {task : Task} :
    Runs program task σ t e ↔ Unfolds program task.instructions σ t e := by
  constructor
  · intro h
    have hc : e.Continues program [] [] e := by
      cases e with
      | done τ => exact .done
      | failed f τ => exact ⟨rfl, rfl⟩
    have hu := h.unfolds hc
    rwa [List.append_nil, List.append_nil] at hu
  · intro h
    exact (Runs.of_unfolds h).of_ofQueue

/-! ## Machines run by structure -/

def Program.task (p : Program) : Task := .block .empty p.actions

/-- A run that its limits do not cut short ends as the structural semantics says, with the same
actions and kinds of statements, and the semantics allows nothing else. What it says is what a run
does when the limits are large enough. -/
theorem run_iff_runs (program : Program) (w : World) :
    (∀ limits : Limits, ((Machine.new program limits).run program w).isCut = false →
      ∃ t, Runs program program.task ⟨w, none⟩ t ((Machine.new program limits).run program w).ending ∧
        Mark.actions t = ((Machine.new program limits).run program w).actions ∧
        Mark.used program.unrolled t = ((Machine.new program limits).run program w).machine.used ∧
        ∀ t' e', Runs program program.task ⟨w, none⟩ t' e' →
          t' = t ∧ e' = ((Machine.new program limits).run program w).ending) ∧
    (∀ t e, Runs program program.task ⟨w, none⟩ t e →
      ∃ n, ∀ limits : Limits, n ≤ limits.maxSteps → n ≤ limits.maxQueue → n ≤ limits.maxRange →
        ((Machine.new program limits).run program w).ending = e ∧
        ((Machine.new program limits).run program w).actions = Mark.actions t ∧
        ((Machine.new program limits).run program w).machine.used = Mark.used program.unrolled t) := by
  constructor
  · intro limits hcut
    obtain ⟨t, ht, hacts, hused⟩ := Machine.run_unfolds hcut
    refine ⟨t, runs_iff_unfolds.mpr ht, hacts, hused, fun t' e' h' => ?_⟩
    exact (runs_iff_unfolds.mp h').unique ht
  · intro t e h
    have hu := runs_iff_unfolds.mp h
    obtain ⟨n, hn⟩ := hu.unlimited
    refine ⟨max n maxCount, fun limits hsteps hqueue hrange => ?_⟩
    have hcut : ((Machine.new program limits).run program w).isCut = false :=
      hn (Machine.new program limits) rfl rfl (by simp only [Machine.new]; omega)
        (Nat.le_trans (Nat.le_max_left _ _) hqueue) (Nat.le_trans (Nat.le_max_right _ _) hrange)
    obtain ⟨t', ht', hacts, hused⟩ := Machine.run_unfolds hcut
    obtain ⟨rfl, rfl⟩ := hu.unique ht'
    exact ⟨rfl, hacts.symm, hused.symm⟩

/-- A program with each kind of nesting: a function called from a loop whose variable it reads, a loop
that ends when the tile is empty, and a conditional. -/
def errand : Program :=
  ⟨"1", none, .ofEntries [("hop", ⟨"hop", [.forward (.var "i")]⟩)],
    [.repeatRange ⟨some "i", .number 1, .number 2, .number 1⟩ [.call "hop"],
      .whileLoop (.comparison (.var "itemCount") .greater (.number 0)) [.collect (.number 1) []],
      .ifElse (.sensor "hasItem" true) [.turnLeft] [] [.turnBack], .putBox (.number 1)],
    0, .empty, []⟩

def errandWorld : World := (World.new 5 1).withItems ⟨3, 0⟩ "red" 2

theorem runs_errand :
    let trace := (Machine.new errand .standard).run errand errandWorld
    trace.isCut = false ∧ ∃ t, Runs errand errand.task ⟨errandWorld, none⟩ t trace.ending ∧
      Mark.actions t = [.forward, .forward, .forward, .collect [], .collect [], .turnBack] := by
  intro trace
  have hcut : trace.isCut = false := by decide +kernel
  have hactions : trace.actions =
      [.forward, .forward, .forward, .collect [], .collect [], .turnBack] := by decide +kernel
  obtain ⟨t, ht, hacts, _⟩ := (run_iff_runs errand errandWorld).1 .standard hcut
  exact ⟨hcut, t, ht, hacts.trans hactions⟩

end BlockRobot
