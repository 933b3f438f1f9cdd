import BlockRobot.Proofs.CallGraph.Calls
import BlockRobot.Proofs.Run.Reach
import BlockRobot.Proofs.Run.Unfolding

/-!
# Runs that end by themselves

Every instruction has a cost, a bound on the instructions that come of it. Expanding a statement
lowers what the queue costs in all (`Step.potential_lt`), so a run takes no more steps than its queue
costs at first. The cost of a call is that of the body it leads to, which is well defined when no
function leads to itself: `run_not_stepLimit`.
-/

namespace BlockRobot

namespace Statement

/-! ## The cost of a statement -/

mutual

/-- A bound on the instructions that come of a statement when the queue has at most `room` of them, a
counted loop at most `rounds` rounds, and the body of a function costs what `call` says. There is no
bound for a loop with a condition. -/
def cost (room rounds : Nat) (call : String → Nat) : Statement → Nat
  | .repeatRange _ body => 1 + rounds * costOf room rounds call body
  | .ifElse _ thenBody elseIfs elseBody =>
    1 + (costOf room rounds call thenBody + costOfClauses room rounds call elseIfs +
      costOf room rounds call elseBody)
  | .whileLoop _ _ => 1
  | .call name => 1 + call name
  | _ => 1 + room

def costOf (room rounds : Nat) (call : String → Nat) : List Statement → Nat
  | [] => 0
  | s :: rest => cost room rounds call s + costOf room rounds call rest

def costOfClauses (room rounds : Nat) (call : String → Nat) :
    List (Condition × List Statement) → Nat
  | [] => 0
  | (_, body) :: rest => costOf room rounds call body + costOfClauses room rounds call rest

end

variable {room rounds : Nat} {call call' : String → Nat}

theorem cost_pos (s : Statement) : 0 < s.cost room rounds call := by
  cases s <;> simp only [cost] <;> omega

theorem cost_of_action {s : Statement} {a : Action} {count : Option Expr}
    (h : Machine.action? s = some (a, count)) : s.cost room rounds call = 1 + room := by
  cases s <;> cases h <;> rfl

theorem costOf_branch_le (w : World) (env : Bindings) (elseBody : List Statement)
    (clauses : List (Condition × List Statement)) :
    costOf room rounds call (Machine.branch w env elseBody clauses) ≤
      costOfClauses room rounds call clauses + costOf room rounds call elseBody := by
  induction clauses with
  | nil => simp [Machine.branch, costOfClauses]
  | cons clause rest ih =>
    obtain ⟨c, body⟩ := clause
    simp only [Machine.branch, costOfClauses]
    split <;> omega

mutual

theorem cost_congr (s : Statement) (h : ∀ name, .call name ∈ s.nodes → call name = call' name) :
    s.cost room rounds call = s.cost room rounds call' := by
  cases s with
  | repeatRange head body =>
    simp only [cost]
    rw [costOf_congr body fun name hn => h name (List.mem_cons_of_mem _ hn)]
  | ifElse c thenBody elseIfs elseBody =>
    simp only [nodes, List.mem_cons, List.mem_append] at h
    simp only [cost]
    rw [costOf_congr thenBody fun name hn => h name (.inr (.inl (.inl hn))),
      costOfClauses_congr elseIfs fun name hn => h name (.inr (.inl (.inr hn))),
      costOf_congr elseBody fun name hn => h name (.inr (.inr hn))]
  | call name => simp only [cost, h name List.mem_cons_self]
  | _ => rfl

theorem costOf_congr (ss : List Statement)
    (h : ∀ name, .call name ∈ nodesOf ss → call name = call' name) :
    costOf room rounds call ss = costOf room rounds call' ss := by
  cases ss with
  | nil => rfl
  | cons s rest =>
    simp only [costOf]
    rw [cost_congr s fun name hn => h name (List.mem_append_left _ hn),
      costOf_congr rest fun name hn => h name (List.mem_append_right _ hn)]

theorem costOfClauses_congr (elseIfs : List (Condition × List Statement))
    (h : ∀ name, .call name ∈ nodesOfClauses elseIfs → call name = call' name) :
    costOfClauses room rounds call elseIfs = costOfClauses room rounds call' elseIfs := by
  cases elseIfs with
  | nil => rfl
  | cons clause rest =>
    obtain ⟨c, body⟩ := clause
    simp only [costOfClauses]
    rw [costOf_congr body fun name hn => h name (List.mem_append_left _ hn),
      costOfClauses_congr rest fun name hn => h name (List.mem_append_right _ hn)]

end

end Statement

/-! ## The cost of a call -/

namespace Program

def callCost (p : Program) (room rounds : Nat) : Nat → String → Nat
  | 0, _ => 0
  | depth + 1, name =>
    match p.function? name with
    | some f => Statement.costOf room rounds (p.callCost room rounds depth) f.body
    | none => 0

variable {p : Program} {g : CallGraph} {room rounds : Nat}

/-- Following calls any deeper than the rank of a function changes nothing. -/
theorem callCost_succ (hg : CallGraph.ofProgram p = .ok g) (hrec : g.recursion = []) {depth : Nat}
    {name : String}
    (hrank : ∀ v, CallGraph.indexIn p.functions.keys name = some v → g.rank v < depth) :
    p.callCost room rounds (depth + 1) name = p.callCost room rounds depth name := by
  induction depth generalizing name with
  | zero =>
    cases hf : p.function? name with
    | none => simp [callCost, hf]
    | some f =>
      obtain ⟨v, hv, _⟩ := CallGraph.exists_indexIn hf
      exact absurd (hrank v hv) (Nat.not_lt_zero _)
  | succ depth ih =>
    rw [callCost, callCost]
    cases hf : p.function? name with
    | none => rfl
    | some f =>
      obtain ⟨v, hv, hbody⟩ := CallGraph.exists_indexIn hf
      refine Statement.costOf_congr f.body fun callee hcall => ih fun u hu => ?_
      have hlt := CallGraph.rank_lt_of_call hg hrec hbody hcall hu
      have hle := hrank v hv
      omega

def bodyCost (p : Program) (room rounds : Nat) (name : String) : Nat :=
  p.callCost room rounds (p.bodies.length + 1) name

theorem bodyCost_eq (hg : CallGraph.ofProgram p = .ok g) (hrec : g.recursion = []) {name : String}
    {f : Function} (hf : p.function? name = some f) :
    p.bodyCost room rounds name = Statement.costOf room rounds (p.bodyCost room rounds) f.body := by
  have hrank (v : Nat) : g.rank v < p.bodies.length + 1 := by
    have hle := CallGraph.rank_le (CallGraph.inRange_ofProgram hg) v
    rw [(CallGraph.ofProgram_eq hg).1] at hle
    omega
  rw [bodyCost, ← callCost_succ hg hrec fun v _ => hrank v, callCost, hf]
  rfl

end Program

namespace Machine

/-! ## The cost of a queue -/

variable {program : Program} {m m₁ : Machine} {w w₁ : World}

def costOf (limits : Limits) (program : Program) : Instruction → Nat
  | .act _ => 1
  | .node s _ =>
    s.cost limits.maxQueue limits.maxRange (program.bodyCost limits.maxQueue limits.maxRange)

def potential (program : Program) (m : Machine) : Nat :=
  sumOver (costOf m.limits program) m.pending.items

theorem costOf_pos (limits : Limits) (i : Instruction) : 0 < costOf limits program i := by
  cases i with
  | act a => exact Nat.one_pos
  | node s env => exact Statement.cost_pos s

theorem sumOver_nodesIn (limits : Limits) (env : Bindings) (ss : List Statement) :
    sumOver (costOf limits program) (nodesIn env ss) =
      Statement.costOf limits.maxQueue limits.maxRange
        (program.bodyCost limits.maxQueue limits.maxRange) ss := by
  induction ss with
  | nil => rfl
  | cons s rest ih =>
    simp only [nodesIn, List.map_cons, sumOver, Statement.costOf] at ih ⊢
    rw [ih]
    rfl

theorem sumOver_rounds (limits : Limits) (name : Option String) (span : Span Float) (env : Bindings)
    (body : List Statement) (count : Nat) :
    sumOver (costOf limits program) (rounds name span env body count) =
      count * Statement.costOf limits.maxQueue limits.maxRange
        (program.bodyCost limits.maxQueue limits.maxRange) body := by
  induction count with
  | zero => simp [rounds, sumOver]
  | succ n ih =>
    simp only [rounds] at ih ⊢
    rw [List.range_succ, List.flatMap_append, sumOver_append, ih, Nat.succ_mul]
    simp only [List.flatMap_cons, List.flatMap_nil, List.append_nil, sumOver_nodesIn]

theorem sumOver_replicate (limits : Limits) (a : Action) (n : Nat) :
    sumOver (costOf limits program) (List.replicate n (.act a)) = n := by
  induction n with
  | zero => rfl
  | succ n ih => rw [List.replicate_succ, sumOver, ih, costOf, Nat.add_comm]

theorem potential_new (program : Program) (limits : Limits) :
    (Machine.new program limits).potential program =
      Statement.costOf limits.maxQueue limits.maxRange
        (program.bodyCost limits.maxQueue limits.maxRange) program.actions :=
  sumOver_nodesIn limits .empty program.actions

/-- A statement costs more than what it expands to. -/
theorem expansion_cost {g : CallGraph} (hg : CallGraph.ofProgram program = .ok g)
    (hrec : g.recursion = []) {env : Bindings} {last : Option Kind} {s : Statement} {x : Expansion}
    {limits : Limits} {size : Nat} (hs : s.kind ≠ .whileLoop)
    (hx : expansion program w env last s = .ok x) (hfits : x.Fits limits size) :
    sumOver (costOf limits program) x.children < costOf limits program (.node s env) := by
  obtain ⟨hrounds, hroom⟩ := hfits
  simp only [costOf]
  cases Expands.of_eq hx with
  | ifElse =>
    rw [Expansion.ofNodes, sumOver_nodesIn]
    refine Nat.lt_of_le_of_lt (Statement.costOf_branch_le ..) ?_
    simp only [Statement.cost, Statement.costOfClauses]
    omega
  | whileDone | whileAgain => exact absurd rfl hs
  | rangeSkipped => exact Statement.cost_pos _
  | range =>
    rw [sumOver_rounds, Statement.cost, Nat.add_comm]
    exact Nat.lt_succ_of_le (Nat.mul_le_mul_right _ hrounds)
  | call defined =>
    rw [Expansion.ofNodes, sumOver_nodesIn, ← Program.bodyCost_eq hg hrec defined, Statement.cost]
    omega
  | skipped => exact Statement.cost_pos _
  | acts acts =>
    have hle := hroom (.inl rfl)
    rw [List.length_replicate] at hle
    rw [sumOver_replicate, Statement.cost_of_action acts]
    omega

theorem potential_of_front {i : Instruction} {rest : Queue Instruction}
    (front : m.pending.pop? = some (i, rest)) :
    m.potential program = costOf m.limits program i + sumOver (costOf m.limits program) rest.items := by
  rw [potential, Queue.pop?_eq_some_iff.mp front, sumOver]

theorem Step.potential_lt {g : CallGraph} (hg : CallGraph.ofProgram program = .ok g)
    (hrec : g.recursion = []) {a? : Option Action} (hm : m.Queued fun s => s.kind ≠ .whileLoop)
    (h : Step program m w a? m₁ w₁) : m₁.potential program < m.potential program := by
  cases h with
  | act front =>
    rw [potential_of_front front]
    exact Nat.lt_add_of_pos_left (costOf_pos _ _)
  | @node s env rest x front _ expands fits =>
    have hcost := expansion_cost hg hrec (hm.front front) expands fits
    rw [potential_of_front front]
    calc ((m.entered rest s).enqueue x).potential program
        = sumOver (costOf m.limits program) x.children +
            sumOver (costOf m.limits program) rest.items := sumOver_append _ _ _
      _ < _ := Nat.add_lt_add_right hcost _

/-- The steps taken and those that the queue still costs never become more. -/
theorem Steps.steps_add_potential_le {g : CallGraph} (hg : CallGraph.ofProgram program = .ok g)
    (hrec : g.recursion = []) (hwhile : ∀ s ∈ program.nodes, s.kind ≠ .whileLoop)
    {as : List Action} (hm : m.Queued (· ∈ program.nodes)) (h : Steps program m w as m₁ w₁) :
    m₁.steps + m₁.potential program ≤ m.steps + m.potential program := by
  induction h with
  | refl => exact Nat.le_refl _
  | @step m m₁ _ w w₁ _ _ _ first _ ih =>
    have hlt := first.potential_lt hg hrec fun s env hs => hwhile s (hm s env hs)
    have hsteps := first.limits_steps.2.1
    have hle := ih (first.queued (hereditary_nodes program) hm)
    omega

/-! ## Which limit stops an expansion -/

theorem splice_error {children : List Instruction} {f : Failure} (h : m.splice children = .error f) :
    ∃ limit, f.error = .queueLimit limit := by
  unfold splice ensureRoom at h
  split at h
  · cases h
  · split at h
    · cases h
      exact ⟨_, rfl⟩
    · cases h

theorem room_splice_error {n : Nat} {children : List Instruction} {f : Failure}
    (h : (do m.ensureRoom n; m₁.splice children) = Except.error f) :
    ∃ limit, f.error = .queueLimit limit := by
  unfold ensureRoom at h
  split at h
  · cases h
    exact ⟨_, rfl⟩
  · exact splice_error h

theorem expandRange_error {env : Bindings} {head : LoopHead} {body : List Statement} {f : Failure}
    (h : m.expandRange w env head body = .error f) (limit : Nat) : f.error ≠ .stepLimit limit := by
  unfold expandRange at h
  split at h
  · split at h
    · cases h
      exact nofun
    · simp only at h
      split at h
      · cases h
        exact nofun
      · obtain ⟨_, hf⟩ := room_splice_error h
        rw [hf]
        exact nofun
  · cases h

theorem expandAction_error {env : Bindings} {a : Action} {count : Option Expr} {f : Failure}
    (h : m.expandAction w env a count = .error f) (limit : Nat) : f.error ≠ .stepLimit limit := by
  unfold expandAction at h
  split at h
  · cases h
    exact nofun
  · split at h
    · cases h
    · split at h
      · next lacks =>
        cases h
        obtain ⟨_, _, _, rfl⟩ := shortage_eq lacks
        exact nofun
      · obtain ⟨_, hf⟩ := room_splice_error h
        rw [hf]
        exact nofun

/-- Only `advance` counts steps. -/
theorem expand_error {env : Bindings} {s : Statement} {f : Failure}
    (h : m.expand program w env s = .error f) (limit : Nat) : f.error ≠ .stepLimit limit := by
  have hsplice {children : List Instruction} (h : m.splice children = .error f) :
      f.error ≠ .stepLimit limit := by
    obtain ⟨_, hf⟩ := splice_error h
    rw [hf]
    exact nofun
  unfold expand at h
  split at h
  · exact hsplice h
  · split at h
    · cases h
    · split at h
      · cases h
        exact nofun
      · exact hsplice h
  · exact expandRange_error h limit
  · split at h
    · exact hsplice h
    · cases h
      exact nofun
  · split at h
    · exact expandAction_error h limit
    · cases h

theorem Halt.stepLimit_cases {a : Option Action} {limit : Nat}
    (h : Halt program m w (some ⟨a, .stepLimit limit⟩) m₁) :
    m.limits.maxSteps ≤ m.steps ∧ 0 < m.potential program := by
  cases h with
  | stepLimit front used =>
    rw [potential_of_front front]
    exact ⟨used, Nat.add_pos_left (costOf_pos _ _) _⟩
  | failed _ _ expands =>
    exact absurd (expansion_error_not_limit expands) (by simp [RunError.isLimit])
  | limited _ _ _ _ stops => exact absurd rfl (expand_error stops limit)

/-- A program without recursion and without loops that have a condition has a bound on its steps that
depends only on the other limits. -/
theorem run_not_stepLimit {g : CallGraph} (hg : CallGraph.ofProgram program = .ok g)
    (hrec : g.recursion = []) (hwhile : ∀ s ∈ program.nodes, s.kind ≠ .whileLoop)
    (maxQueue maxRange : Nat) :
    ∃ bound, ∀ (w : World) (maxSteps : Nat), bound ≤ maxSteps → ∀ a limit,
      ((Machine.new program ⟨maxSteps, maxQueue, maxRange⟩).run program w).failure ≠
        some ⟨a, .stepLimit limit⟩ := by
  refine ⟨Statement.costOf maxQueue maxRange (program.bodyCost maxQueue maxRange) program.actions,
    fun w maxSteps hbound a limit hf => ?_⟩
  obtain ⟨m₁, hsteps, hhalt⟩ := exists_steps_halt program (.new program ⟨maxSteps, maxQueue, maxRange⟩) w
  rw [hf] at hhalt
  obtain ⟨hused, hpos⟩ := hhalt.stepLimit_cases
  have hqueued : (Machine.new program ⟨maxSteps, maxQueue, maxRange⟩).Queued (· ∈ program.nodes) :=
    queued_new fun s hs => Program.mem_nodes_of_body List.mem_cons_self hs
  have hle := hsteps.steps_add_potential_le hg hrec hwhile hqueued
  rw [potential_new] at hle
  rw [hsteps.limits_eq] at hused
  simp only [Machine.new] at hle hused
  omega

/-- Walks along sides of growing length, with a function for a side that calls one for the turn. -/
def square : Program :=
  ⟨"1", none, .ofEntries [("side", ⟨"side", [.forward (.var "i"), .call "turn"]⟩),
      ("turn", ⟨"turn", [.turnLeft]⟩)],
    [.repeatRange ⟨some "i", .number 1, .number 4, .number 1⟩
      [.ifElse (.sensor "hasItem" true) [.collect .one []] [] [.call "side"]]], 0, .empty, []⟩

theorem square_not_stepLimit :
    ∃ g, CallGraph.ofProgram square = .ok g ∧ g.recursion = [] ∧ g.edges.length = 2 ∧
      ∃ bound, ∀ (w : World) (maxSteps : Nat), bound ≤ maxSteps → ∀ a limit,
        ((Machine.new square ⟨maxSteps, 10, 4⟩).run square w).failure ≠
          some ⟨a, .stepLimit limit⟩ := by
  cases hg : CallGraph.ofProgram square with
  | error e => cases hg
  | ok g =>
    have hedges : g.edges.length = 2 ∧ ∀ e ∈ g.edges, e.caller < e.callee := by
      cases hg
      decide +kernel
    have hforward : ∀ u v, g.Calls u v → u < v := by
      rintro u v ⟨e, he, rfl, rfl⟩
      exact hedges.2 e he
    have hrec : g.recursion = [] := by
      rw [CallGraph.recursion_eq_nil_iff (CallGraph.inRange_ofProgram hg)]
      intro v _ hcycle
      exact Nat.lt_irrefl v (Relation.transGen_minimal hforward v v hcycle)
    have hwhile : ∀ s ∈ square.nodes, s.kind ≠ .whileLoop := by decide
    exact ⟨g, rfl, hrec, hedges.1, run_not_stepLimit hg hrec hwhile 10 4⟩

end Machine

end BlockRobot
