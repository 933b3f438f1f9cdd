import BlockRobot.Proofs.Program.Rewriting
import BlockRobot.Proofs.Run.Unfolding

/-!
# Writing statements out in place

If a statement expands to the same statements in every scene (`Machine.Faithful`), as a call and a loop of
a known number of rounds do, these can stand in its place: the queue of the new program goes along with
that of the old one (`Machine.Mirrors`), and both runs do the same: `run_inPlace`.
-/

namespace BlockRobot

open Relation (ReflGen)
open Statement (Rewrites RewritesIn Similar)

namespace Machine

variable {R : Statement → List Statement → Prop} {p p' : Program}

/-! ## Queues side by side -/

/-- The queue of a program and that of the program with replacements: where the first has a statement to
be replaced, the second already has what it is replaced by. -/
inductive Mirrors (R : Statement → List Statement → Prop) :
    List Instruction → List Instruction → Prop where
  | nil : Mirrors R [] []
  | act {a : Action} {q q' : List Instruction} (rest : Mirrors R q q') :
      Mirrors R (.act a :: q) (.act a :: q')
  | node {s s' : Statement} {env : Bindings} {q q' : List Instruction}
      (alike : ReflGen (RewritesIn R) s s') (rest : Mirrors R q q') :
      Mirrors R (.node s env :: q) (.node s' env :: q')
  | replaced {s : Statement} {new : List Statement} {env : Bindings} {q q' : List Instruction}
      (replaced : R s new) (rest : Mirrors R q q') :
      Mirrors R (.node s env :: q) (nodesIn env new ++ q')

theorem Mirrors.refl (q : List Instruction) : Mirrors R q q := by
  induction q with
  | nil => exact .nil
  | cons i q ih =>
    cases i with
    | act a => exact .act ih
    | node s env => exact .node .refl ih

theorem Mirrors.append {q q' r r' : List Instruction} (h : Mirrors R q q') (hr : Mirrors R r r') :
    Mirrors R (q ++ r) (q' ++ r') := by
  induction h with
  | nil => exact hr
  | act _ ih => exact .act ih
  | node alike _ ih => exact .node alike ih
  | replaced replaced _ ih =>
    rw [List.append_assoc]
    exact .replaced replaced ih

theorem mirrors_of_rewrites {ss ss' : List Statement} (h : Rewrites R ss ss') (env : Bindings) :
    Mirrors R (nodesIn env ss) (nodesIn env ss') := by
  induction ss generalizing ss' with
  | nil => cases h
  | cons s rest ih =>
    cases h with
    | here replaced =>
      rw [nodesIn, nodesIn, List.map_append]
      exact .replaced replaced (.refl _)
    | inside nested => exact .node (.single nested) (.refl _)
    | later others => exact .node .refl (ih others)

theorem mirrors_nodesIn {ss ss' : List Statement} (h : Similar R ss ss') (env : Bindings) :
    Mirrors R (nodesIn env ss) (nodesIn env ss') := by
  cases h with
  | refl => exact .refl _
  | single h => exact mirrors_of_rewrites h env

theorem mirrors_rounds {body body' : List Statement} (h : Similar R body body') (name : Option String)
    (span : Span Float) (env : Bindings) (count : Nat) :
    Mirrors R (rounds name span env body count) (rounds name span env body' count) := by
  unfold rounds
  induction List.range count with
  | nil => exact .nil
  | cons i is ih =>
    rw [List.flatMap_cons, List.flatMap_cons]
    exact (mirrors_nodesIn h _).append ih

theorem similar_branch {w : World} {env : Bindings} {body body' elseBody : List Statement}
    {c : Condition} {after : List (Condition × List Statement)} (h : Rewrites R body body')
    (before : List (Condition × List Statement)) :
    Similar R (branch w env elseBody (before ++ (c, body) :: after))
      (branch w env elseBody (before ++ (c, body') :: after)) := by
  induction before with
  | nil =>
    simp only [List.nil_append, branch]
    split
    · exact .single h
    · exact .refl
  | cons b before ih =>
    obtain ⟨c', body''⟩ := b
    simp only [List.cons_append, branch]
    split
    · exact .refl
    · exact ih

theorem similar_branch_else {w : World} {env : Bindings} {elseBody elseBody' : List Statement}
    {clauses : List (Condition × List Statement)} (h : Rewrites R elseBody elseBody') :
    Similar R (branch w env elseBody clauses) (branch w env elseBody' clauses) := by
  induction clauses with
  | nil => exact .single h
  | cons b rest ih =>
    obtain ⟨c, body⟩ := b
    simp only [branch]
    split
    · exact .refl
    · exact ih

/-! ## Expansions side by side -/

inductive ExpandAlike (R : Statement → List Statement → Prop) :
    Except Failure Expansion → Except Failure Expansion → Prop where
  | error (f : Failure) : ExpandAlike R (.error f) (.error f)
  | ok {x x' : Expansion} (last : x'.last = x.last) (children : Mirrors R x.children x'.children) :
      ExpandAlike R (.ok x) (.ok x')

namespace ExpandAlike

theorem refl (r : Except Failure Expansion) : ExpandAlike R r r := by
  cases r with
  | error f => exact .error f
  | ok x => exact .ok rfl (.refl _)

theorem nodes {last : Option Kind} {env : Bindings} {ss ss' : List Statement} (h : Similar R ss ss') :
    ExpandAlike R (.ok (.ofNodes last env ss)) (.ok (.ofNodes last env ss')) :=
  .ok rfl (mirrors_nodesIn h env)

theorem exists_ok {x : Expansion} {r : Except Failure Expansion} (h : ExpandAlike R (.ok x) r) :
    ∃ x', r = .ok x' ∧ x'.last = x.last ∧ Mirrors R x.children x'.children := by
  cases h with
  | ok last children => exact ⟨_, rfl, last, children⟩

theorem eq_error {f : Failure} {r : Except Failure Expansion} (h : ExpandAlike R (.error f) r) :
    r = .error f := by
  cases h
  rfl

end ExpandAlike

/-- A loop whose condition holds and that does nothing but come to a statement that is left out. -/
def Spins (R : Statement → List Statement → Prop) (w : World) (env : Bindings) (s : Statement) : Prop :=
  ∃ c s₀, s = .whileLoop c [s₀] ∧ R s₀ [] ∧ c.holds w env = true

theorem spins_or_ne_nil {w : World} {env : Bindings} {c : Condition} {body body' : List Statement}
    (h : Rewrites R body body') (hc : c.holds w env = true) :
    Spins R w env (.whileLoop c body) ∨ body' ≠ [] := by
  cases h with
  | @here s new rest replaced =>
    cases hnil : new ++ rest with
    | nil =>
      obtain ⟨rfl, rfl⟩ := List.append_eq_nil_iff.mp hnil
      exact .inl ⟨c, s, rfl, replaced, hc⟩
    | cons _ _ => exact .inr (by simp)
  | inside | later => exact .inr (by simp)

variable (w : World) (env : Bindings) (last : Option Kind)

theorem expandAlike_same (hp : p.Similar R p') (s : Statement) :
    ExpandAlike R (expansion p w env last s) (expansion p' w env last s) := by
  cases s with
  | call name =>
    have hf := hp.functions name
    simp only [expansion]
    generalize p.function? name = f? at hf ⊢
    generalize p'.function? name = f?' at hf ⊢
    cases hf with
    | none => exact .error _
    | some h => exact .nodes h
  | _ => exact .refl _

theorem expandAlike_inside {s s' : Statement} (h : RewritesIn R s s') (hs : ¬ Spins R w env s) :
    ExpandAlike R (expansion p w env last s) (expansion p' w env last s') := by
  cases h with
  | rangeBody nested =>
    simp only [expansion, rangeExpansion]
    split
    · split
      · exact .error _
      · exact .ok rfl (mirrors_rounds (.single nested) _ _ _ _)
    · exact .refl _
  | @whileBody c body body' nested =>
    cases hc : c.holds w env with
    | false =>
      rw [(Expands.whileDone hc).eq, (Expands.whileDone hc).eq]
      exact .refl _
    | true =>
      have hne : body ≠ [] := by rintro rfl; cases nested
      have hne' : body' ≠ [] := (spins_or_ne_nil nested hc).resolve_left hs
      rw [(Expands.whileAgain hc hne).eq, (Expands.whileAgain hc hne').eq]
      refine .ok rfl ?_
      simp only [Expansion.ofNodes, nodesIn, List.map_append]
      exact (mirrors_of_rewrites nested env).append (.node (.single (.whileBody nested)) .nil)
  | thenBody nested => exact .nodes (similar_branch nested [])
  | @elseIfBody c _ thenBody _ _ _ before _ nested =>
    exact .nodes (similar_branch nested ((c, thenBody) :: before))
  | elseBody nested => exact .nodes (similar_branch_else nested)

theorem expandAlike (hp : p.Similar R p') {s s' : Statement} (h : ReflGen (RewritesIn R) s s')
    (hs : ¬ Spins R w env s) : ExpandAlike R (expansion p w env last s) (expansion p' w env last s') := by
  cases h with
  | refl => exact expandAlike_same w env last hp s
  | single h => exact expandAlike_inside w env last h hs

end Machine

/-! ## Marks but for one kind of statement -/

namespace Mark

/-- The marks agree when those of coming to a statement of the kind `kind` are left out. -/
def AgreeBut (kind : Kind) (t t' : List Mark) : Prop :=
  t.filter (· ≠ .entered kind) = t'.filter (· ≠ .entered kind)

variable {kind : Kind} {t t' : List Mark}

theorem AgreeBut.cons (mark : Mark) (h : AgreeBut kind t t') :
    AgreeBut kind (mark :: t) (mark :: t') := by
  simp only [AgreeBut, List.filter_cons] at h ⊢
  rw [h]

theorem AgreeBut.skip (h : AgreeBut kind t t') : AgreeBut kind (.entered kind :: t) t' := by
  simpa [AgreeBut] using h

theorem actions_filter (kind : Kind) (t : List Mark) :
    actions (t.filter (· ≠ .entered kind)) = actions t := by
  induction t with
  | nil => rfl
  | cons mark t ih =>
    cases mark with
    | did a =>
      rw [List.filter_cons_of_pos (by simp)]
      exact congrArg (a :: ·) ih
    | entered k =>
      by_cases hk : k = kind
      · rw [List.filter_cons_of_neg (by simp [hk])]
        exact ih
      · rw [List.filter_cons_of_pos (by simp [hk])]
        exact ih

theorem AgreeBut.actions_eq (h : AgreeBut kind t t') : actions t = actions t' := by
  rw [← actions_filter kind t, ← actions_filter kind t', h]

theorem mem_used {before : KindSet} {k : Kind} :
    k ∈ used before t ↔ k ∈ before ∨ .entered k ∈ t := by
  induction t generalizing before with
  | nil => simp [used]
  | cons mark t ih =>
    cases mark with
    | did a => simp [used, ih]
    | entered k' =>
      rw [used, ih, KindSet.mem_insert, List.mem_cons, Mark.entered.injEq, or_assoc, or_left_comm]

theorem AgreeBut.mem_used_iff (h : AgreeBut kind t t') {before : KindSet} {k : Kind} (hk : k ≠ kind) :
    k ∈ used before t ↔ k ∈ used before t' := by
  have hmem {u : List Mark} : .entered k ∈ u ↔ .entered k ∈ u.filter (· ≠ .entered kind) := by
    simp [List.mem_filter, hk]
  rw [mem_used, mem_used, hmem, h, ← hmem]

end Mark

namespace Machine

variable {R : Statement → List Statement → Prop} {p p' : Program} {kind : Kind}

/-! ## Unfolding side by side -/

/-- What is to be replaced is of one kind, and expands to what replaces it in every scene. -/
structure Faithful (p : Program) (kind : Kind) (R : Statement → List Statement → Prop) : Prop where
  kind_eq : ∀ {s : Statement} {new : List Statement}, R s new → s.kind = kind
  expands : ∀ {s : Statement} {new : List Statement}, R s new →
    ∀ (w : World) (env : Bindings) (last : Option Kind), ∃ x, expansion p w env last s = .ok x ∧
      x.children = nodesIn env new ∧ x.last = last

/-- A loop that spins comes back to where it was, and so it has no end. -/
theorem Spins.not_unfolds (hR : Faithful p kind R) {s : Statement} {env : Bindings} {σ : Scene}
    (hs : Spins R σ.world env s) {rest : List Instruction} {t : List Mark} {e : Ending} :
    ¬ Unfolds p (.node s env :: rest) σ t e := by
  obtain ⟨c, s₀, rfl, hleft, hc⟩ := hs
  intro h
  have hloop : ∃ t', t = .entered .whileLoop :: .entered s₀.kind :: t' ∧
      Unfolds p (.node (.whileLoop c [s₀]) env :: rest) σ t' e := by
    cases h with
    | failed expands =>
      rw [(Expands.whileAgain hc (by simp)).eq] at expands
      cases expands
    | node expands goes =>
      rw [(Expands.whileAgain hc (by simp)).eq] at expands
      cases expands
      obtain ⟨x, hx, hchildren, hlast⟩ := hR.expands hleft σ.world env σ.last
      cases goes with
      | failed expands => cases hx.symm.trans expands
      | node expands goes =>
        cases hx.symm.trans expands
        rw [hchildren, hlast] at goes
        exact ⟨_, rfl, goes⟩
  -- From one place a queue unfolds in one way only, and so the marks would be longer than they are.
  obtain ⟨t', ht, h'⟩ := hloop
  obtain ⟨rfl, _⟩ := h.unique h'
  exact absurd (congrArg List.length ht) (by simp only [List.length_cons]; omega)

theorem Unfolds.mirrored (hR : Faithful p kind R) (hp : p.Similar R p') {q q' : List Instruction}
    {σ : Scene} {t : List Mark} {e : Ending} (h : Unfolds p q σ t e) (hq : Mirrors R q q') :
    ∃ t', Unfolds p' q' σ t' e ∧ Mark.AgreeBut kind t t' := by
  -- On the unfolding of the first program, which may take a step where its mirror stays.
  induction h generalizing q' with
  | done =>
    cases hq
    exact ⟨[], .done, rfl⟩
  | act applied _ ih =>
    cases hq with
    | act rest =>
      obtain ⟨t', ht', hagree⟩ := ih rest
      exact ⟨_, .act applied ht', hagree.cons _⟩
  | refused applied =>
    cases hq with
    | act rest => exact ⟨[], .refused applied, rfl⟩
  | @node s env _ σ x t e expands goes ih =>
    cases hq with
    | node alike rest =>
      have hspins : ¬ Spins R σ.world env s := fun hs => hs.not_unfolds hR (.node expands goes)
      have hx := expandAlike σ.world env σ.last hp alike hspins
      rw [expands] at hx
      obtain ⟨x', hx', hlast, hchildren⟩ := hx.exists_ok
      obtain ⟨t', ht', hagree⟩ := ih (hchildren.append rest)
      rw [← hlast] at ht'
      rw [← Statement.kind_eq_of_rewritesIn alike]
      exact ⟨_, .node hx' ht', hagree.cons _⟩
    | replaced replaced rest =>
      obtain ⟨x', hx', hchildren, hlast⟩ := hR.expands replaced σ.world env σ.last
      cases expands.symm.trans hx'
      rw [hchildren, hlast] at ih
      obtain ⟨t', ht', hagree⟩ := ih ((Mirrors.refl _).append rest)
      rw [hR.kind_eq replaced]
      exact ⟨t', ht', hagree.skip⟩
  | @failed s env _ σ f expands =>
    cases hq with
    | node alike rest =>
      have hspins : ¬ Spins R σ.world env s := by
        rintro ⟨c, s₀, rfl, _, hc⟩
        rw [(Expands.whileAgain hc (by simp)).eq] at expands
        cases expands
      have hx := expandAlike σ.world env σ.last hp alike hspins
      rw [expands] at hx
      rw [← Statement.kind_eq_of_rewritesIn alike]
      exact ⟨_, .failed hx.eq_error, rfl⟩
    | replaced replaced rest =>
      obtain ⟨_, hx', _⟩ := hR.expands replaced σ.world env σ.last
      cases expands.symm.trans hx'

end Machine

/-! ## Calls and loops in place -/

/-- What a statement of the kind `kind` stands for, written out: the body of the function that it calls,
or the rounds of a loop without a name whose bounds are finite numbers. -/
inductive Statement.InPlace (p : Program) : Kind → Statement → List Statement → Prop where
  | call {name : String} {f : Function} (defined : p.function? name = some f) :
      InPlace p .call (.call name) f.body
  | loop {first last step : Float} {body : List Statement} {n : Nat} (hfirst : first.isFinite = true)
      (hlast : last.isFinite = true) (hstep : step.isFinite = true)
      (counted : LoopHead.staticCount ⟨none, .number first, .number last, .number step⟩ = some n) :
      InPlace p .repeatRange (.repeatRange ⟨none, .number first, .number last, .number step⟩ body)
        (List.replicate n body).flatten

theorem Expr.value?_number {x : Float} (h : x.isFinite = true) (w : World) (env : Bindings) :
    (Expr.number x).value? w env = some x := by
  rw [value?, finite?, if_pos h]

theorem Span.step_ne_zero {span : Span Float} {n : Nat} (h : span.count = some n) :
    (span.step == 0) = false := by
  unfold Span.count at h
  split at h
  · cases h
  · next hstep =>
    simp only [Bool.or_eq_true, not_or, Bool.not_eq_true] at hstep
    exact hstep.1

namespace Machine

variable {p p' : Program} {kind : Kind}

theorem rounds_unnamed (span : Span Float) (env : Bindings) (body : List Statement) (n : Nat) :
    rounds none span env body n = nodesIn env (List.replicate n body).flatten := by
  have hrange : (List.range n).map (fun _ => nodesIn env body) = List.replicate n (nodesIn env body) := by
    rw [List.map_const', List.length_range]
  rw [nodesIn, List.map_flatten, List.map_replicate]
  exact congrArg List.flatten hrange

theorem faithful_inPlace (p : Program) (kind : Kind) : Faithful p kind (Statement.InPlace p kind) where
  kind_eq h := by
    cases h with
    | call => rfl
    | loop => rfl
  expands h w env last := by
    cases h with
    | call defined => exact ⟨_, (Expands.call defined).eq, rfl, rfl⟩
    | @loop first final step body n hfirst hfinal hstep counted =>
      have hcount : (⟨first, final, step⟩ : Span Float).count = some n := counted
      refine ⟨_, (Expands.range (Expr.value?_number hfirst w env) (Expr.value?_number hfinal w env)
        (Expr.value?_number hstep w env) (Span.step_ne_zero hcount)).eq, ?_, rfl⟩
      rw [hcount]
      exact rounds_unnamed ⟨first, final, step⟩ env body n

end Machine

theorem Trace.eq_of_ending {t t' : Trace} (h : t'.ending = t.ending) :
    t'.failure = t.failure ∧ t'.world = t.world := by
  unfold Trace.ending Ending.of at h
  split at h <;> split at h <;> simp_all

/-- A call can be replaced by the body of its function, and a loop that can be counted by its rounds: two
runs that no limit cuts short do the same actions, end alike in the same world, and use the same kinds of
statements but for the one replaced. -/
theorem run_inPlace {p p' : Program} {kind : Kind} (h : p.Rewrites (Statement.InPlace p kind) p')
    (w : World) (limits limits' : Limits)
    (hcut : ((Machine.new p limits).run p w).isCut = false)
    (hcut' : ((Machine.new p' limits').run p' w).isCut = false) :
    let trace := (Machine.new p limits).run p w
    let trace' := (Machine.new p' limits').run p' w
    trace'.actions = trace.actions ∧ trace'.failure = trace.failure ∧ trace'.world = trace.world ∧
      ∀ k, k ≠ kind → (k ∈ trace'.machine.used ↔ k ∈ trace.machine.used) := by
  intro trace trace'
  obtain ⟨t, ht, hactions, hused⟩ := Machine.run_unfolds hcut
  obtain ⟨t', ht', hactions', hused'⟩ := Machine.run_unfolds hcut'
  have hp := h.similar
  obtain ⟨u, hu, hagree⟩ := ht.mirrored (Machine.faithful_inPlace p kind) hp
    (Machine.mirrors_nodesIn hp.actions .empty)
  obtain ⟨rfl, hending⟩ := hu.unique ht'
  obtain ⟨hfailure, hworld⟩ := Trace.eq_of_ending hending.symm
  refine ⟨?_, hfailure, hworld, fun k hk => ?_⟩
  · rw [← hactions, ← hactions', hagree.actions_eq]
  · have hunrolled : (Machine.new p' limits').used = (Machine.new p limits).used := hp.unrolled
    rw [← hused, ← hused', hunrolled]
    exact (hagree.mem_used_iff hk).symm

/-- A function with a loop that calls another function and runs a loop without a name. -/
def patrol : Program :=
  ⟨"1", none, .ofEntries [("grab", ⟨"grab", [.collect (.number 1) []]⟩),
      ("clear", ⟨"clear", [.whileLoop (.sensor "hasItem" true)
        [.call "grab", .repeatRange ⟨none, .number 1, .number 2, .number 1⟩ [.turnLeft]]]⟩)],
    [.call "clear", .forward (.number 1), .call "clear", .putBox (.number 1)], 0, .empty, []⟩

def patrolWith (body : List Statement) : Program :=
  { patrol with
    functions := patrol.functions.insert "clear" ⟨"clear", [.whileLoop (.sensor "hasItem" true) body]⟩ }

def patrolWorld : World := ((World.new 2 2).withItems ⟨0, 0⟩ "red" 2).withItems ⟨1, 0⟩ "blue" 1

theorem patrol_inPlace :
    let called := patrolWith
      [.collect (.number 1) [], .repeatRange ⟨none, .number 1, .number 2, .number 1⟩ [.turnLeft]]
    let counted := patrolWith [.call "grab", .turnLeft, .turnLeft]
    let trace := (Machine.new patrol .standard).run patrol patrolWorld
    let trace₁ := (Machine.new called .standard).run called patrolWorld
    let trace₂ := (Machine.new counted .standard).run counted patrolWorld
    trace.actions.length = 10 ∧
    (trace₁.actions = trace.actions ∧ trace₁.failure = trace.failure) ∧
    trace₂.actions = trace.actions ∧ trace₂.failure = trace.failure ∧
    Kind.repeatRange ∉ trace₂.machine.used ∧ Kind.whileLoop ∈ trace₂.machine.used := by
  intro called counted trace trace₁ trace₂
  have hclear : patrol.function? "clear" = some ⟨"clear", [.whileLoop (.sensor "hasItem" true)
      [.call "grab", .repeatRange ⟨none, .number 1, .number 2, .number 1⟩ [.turnLeft]]]⟩ := by rfl
  have hgrab : patrol.function? "grab" = some ⟨"grab", [.collect (.number 1) []]⟩ := by rfl
  have hcall : Rewrites (Statement.InPlace patrol .call)
      [.call "grab", .repeatRange ⟨none, .number 1, .number 2, .number 1⟩ [.turnLeft]]
      ([.collect (.number 1) []] ++ [.repeatRange ⟨none, .number 1, .number 2, .number 1⟩ [.turnLeft]]) :=
    .here (.call hgrab)
  have hloop : Rewrites (Statement.InPlace patrol .repeatRange)
      [.repeatRange ⟨none, .number 1, .number 2, .number 1⟩ [.turnLeft]]
      ((List.replicate 2 [.turnLeft]).flatten ++ []) :=
    .here (.loop (by decide +kernel) (by decide +kernel) (by decide +kernel) (by decide +kernel))
  have hcalled : patrol.Rewrites (Statement.InPlace patrol .call) called :=
    .function hclear (.inside (.whileBody hcall))
  have hcounted : patrol.Rewrites (Statement.InPlace patrol .repeatRange) counted :=
    .function hclear (.inside (.whileBody (.later hloop)))
  have hcut : trace.isCut = false := by decide +kernel
  have hcut₁ : trace₁.isCut = false := by decide +kernel
  have hcut₂ : trace₂.isCut = false := by decide +kernel
  obtain ⟨hactions₁, hfailure₁, _⟩ := run_inPlace hcalled patrolWorld .standard .standard hcut hcut₁
  obtain ⟨hactions₂, hfailure₂, _, hused₂⟩ :=
    run_inPlace hcounted patrolWorld .standard .standard hcut hcut₂
  have hwhile : Kind.whileLoop ∈ trace.machine.used := by decide +kernel
  exact ⟨by decide +kernel, ⟨hactions₁, hfailure₁⟩, hactions₂, hfailure₂, by decide +kernel,
    (hused₂ .whileLoop (by decide)).mpr hwhile⟩

end BlockRobot
