import BlockRobot.Proofs.CallGraph.Usage
import BlockRobot.Proofs.Run.Reach

/-!
# Functions that no run calls

A run asks its program only for the functions that it calls. So two programs run alike if they agree on
the calls that a run can come to (`run_congr`), and a run comes only to statements that are in use
(`hereditary_inUse`). Without its unused functions a program runs as with them:
`Simulation.run_withoutUnused`.
-/

namespace BlockRobot

namespace Entries

variable {α : Type}

theorem get?_filter (keep : String → Bool) (key : String) (es : Entries α) :
    get? key (es.filter fun e => keep e.1) = if keep key then get? key es else none := by
  induction es with
  | nil => simp [get?]
  | cons e rest ih =>
    obtain ⟨k, a⟩ := e
    by_cases hk : k = key
    · subst hk
      cases hkeep : keep k with
      | true => simp [get?, hkeep]
      | false => simpa [hkeep] using ih
    · cases hkeep : keep k with
      | true => simp [get?, hkeep, hk, ih]
      | false => simp [get?, hkeep, hk, ih]

end Entries

def Table.filter {α : Type} (t : Table α) (keep : String → Bool) : Table α :=
  ⟨t.entries.filter fun e => keep e.1, t.nodup.sublist (List.filter_sublist.map Prod.fst)⟩

theorem Table.get?_filter {α : Type} (t : Table α) (keep : String → Bool) (key : String) :
    (t.filter keep).get? key = if keep key then t.get? key else none :=
  Entries.get?_filter keep key t.entries

def Program.withoutUnused (p : Program) (g : CallGraph) : Program :=
  { p with functions := p.functions.filter fun name => .unusedFunction name ∉ g.unusedFunctions }

namespace Machine

variable {p p' : Program} {m m₁ : Machine} {w w₁ : World} {s : Statement}

/-! ## Programs with the same functions -/

/-- If a statement is a call, both programs have the same function for it. -/
def SameCall (p p' : Program) (s : Statement) : Prop :=
  ∀ name, s = .call name → p'.function? name = p.function? name

theorem SameCall.expand (h : SameCall p p' s) (m : Machine) (w : World) (env : Bindings) :
    m.expand p' w env s = m.expand p w env s := by
  cases s with
  | call name => simp only [Machine.expand, h name rfl]
  | _ => rfl

theorem SameCall.expansion (h : SameCall p p' s) (w : World) (env : Bindings) (last : Option Kind) :
    expansion p' w env last s = expansion p w env last s := by
  cases s with
  | call name => simp only [Machine.expansion, h name rfl]
  | _ => rfl

variable {Q : Statement → Prop}

theorem Step.congr {a? : Option Action} (h : Step p m w a? m₁ w₁) (hm : m.Queued Q)
    (hsame : ∀ s, Q s → SameCall p p' s) : Step p' m w a? m₁ w₁ := by
  cases h with
  | act front allowed applied => exact .act front allowed applied
  | node front allowed expands fits =>
    rw [← (hsame _ (hm.front front)).expansion] at expands
    exact .node front allowed expands fits

theorem Steps.congr {as : List Action} (hQ : Hereditary p Q) (h : Steps p m w as m₁ w₁)
    (hm : m.Queued Q) (hsame : ∀ s, Q s → SameCall p p' s) : Steps p' m w as m₁ w₁ := by
  induction h with
  | refl => exact .refl _ _
  | step first _ ih => exact .step (first.congr hm hsame) (ih (first.queued hQ hm))

theorem Halt.congr {f? : Option Failure} (h : Halt p m w f? m₁) (hm : m.Queued Q)
    (hsame : ∀ s, Q s → SameCall p p' s) : Halt p' m w f? m₁ := by
  cases h with
  | exhausted front => exact .exhausted front
  | stepLimit front used => exact .stepLimit front used
  | refused front allowed applied => exact .refused front allowed applied
  | failed front allowed expands =>
    rw [← (hsame _ (hm.front front)).expansion] at expands
    exact .failed front allowed expands
  | limited front allowed expands unfit stops limit =>
    have hs := hsame _ (hm.front front)
    rw [← hs.expansion] at expands
    rw [← hs.expand] at stops
    exact .limited front allowed expands unfit stops limit

theorem run_congr (hQ : Hereditary p Q) (hm : m.Queued Q) (hsame : ∀ s, Q s → SameCall p p' s)
    (w : World) : m.run p' w = m.run p w := by
  -- The run of the one program, step by step, is a run of the other.
  obtain ⟨m₁, hsteps, hhalt⟩ := exists_steps_halt p m w
  have hm₁ : m₁.Queued Q := hsteps.queued hQ hm
  exact run_eq_of_halt (hsteps.congr hQ hm hsame) (hhalt.congr hm₁ hsame)

/-! ## Statements in use -/

variable {g : CallGraph}

theorem hereditary_inUse (hg : CallGraph.ofProgram p = .ok g) : Hereditary p (g.InUse p) where
  nested := .nested
  called hcall hf ht := hcall.called hg hf ht

theorem queued_inUse (limits : Limits) : (Machine.new p limits).Queued (g.InUse p) :=
  queued_new fun _ hs => CallGraph.inUse_of_mem_actions hs

theorem sameCall_withoutUnused (hg : CallGraph.ofProgram p = .ok g) (hs : g.InUse p s) :
    SameCall p (p.withoutUnused g) s := by
  rintro name rfl
  have hused : .unusedFunction name ∉ g.unusedFunctions := by
    intro h
    obtain ⟨v, hv, hreached⟩ := (CallGraph.mem_unusedFunctions hg).mp h
    exact hreached (hs.reached hg hv)
  simp only [Program.function?, Program.withoutUnused, Table.get?_filter, hused, not_false_eq_true,
    decide_true, if_true]

theorem mem_reachableFunctions_of_call (hg : CallGraph.ofProgram p = .ok g) {limits : Limits}
    {as : List Action} {name : String} {env : Bindings} {rest : Queue Instruction} {f : Function}
    (hsteps : Steps p (.new p limits) w as m w₁)
    (front : m.pending.pop? = some (.node (.call name) env, rest)) (hf : p.function? name = some f) :
    name ∈ g.reachableFunctions := by
  have hqueued := hsteps.queued (hereditary_inUse hg) (queued_inUse limits)
  obtain ⟨v, hv, _⟩ := CallGraph.exists_indexIn hf
  exact (CallGraph.mem_reachableFunctions hg).mpr ⟨v, hv, (hqueued.front front).reached hg hv⟩

end Machine

namespace Simulation

/-- Without the functions that its call graph finds unused, a program is simulated as with them. No run
of it comes to a call of a function that is not listed as reachable. -/
theorem run_withoutUnused {p : Program} {g : CallGraph} (hg : CallGraph.ofProgram p = .ok g) :
    (∀ (evaluator : Evaluator) (limits : Limits) (w : World),
      run evaluator limits (p.withoutUnused g) w = run evaluator limits p w) ∧
    ∀ (limits : Limits) (w w₁ : World) (as : List Action) (m : Machine) (name : String)
      (env : Bindings) (rest : Queue Instruction) (f : Function),
      Machine.Steps p (.new p limits) w as m w₁ →
      m.pending.pop? = some (.node (.call name) env, rest) → p.function? name = some f →
      name ∈ g.reachableFunctions := by
  constructor
  · intro evaluator limits w
    have hnew : Machine.new (p.withoutUnused g) limits = Machine.new p limits := rfl
    have hrun (w : World) :
        (Machine.new p limits).run (p.withoutUnused g) w = (Machine.new p limits).run p w :=
      Machine.run_congr (Machine.hereditary_inUse hg) (Machine.queued_inUse limits)
        (fun _ hs => Machine.sameCall_withoutUnused hg hs) w
    simp only [run, hnew, hrun]
  · intro limits w w₁ as m name env rest f hsteps front hf
    exact Machine.mem_reachableFunctions_of_call hg hsteps front hf

/-- Two functions that nobody calls but they themselves, and one that is in use. -/
def relay : Program :=
  ⟨"1", none, .ofEntries [("spin", ⟨"spin", [.turnBack, .call "whirl"]⟩),
      ("hop", ⟨"hop", [.forward (.number 1)]⟩),
      ("whirl", ⟨"whirl", [.ifElse (.sensor "hasItem" true) [.call "spin"] [] [.call "hop"]]⟩)],
    [.whileLoop (.sensor "hasItem" false) [.call "hop"], .call "rest"], 0, .empty, []⟩

def relayGraph : CallGraph where
  nodes := [.main, .function "spin" 2, .function "hop" 1, .function "whirl" 3]
  edges :=
    [⟨0, 2, true, (((Path.ofRoot "actions").index 0).field "body").index 0⟩,
      ⟨1, 3, false, (Path.ofRoot "functions[spin].body").index 1⟩,
      ⟨3, 1, false, (((Path.ofRoot "functions[whirl].body").index 0).field "then").index 0⟩,
      ⟨3, 2, false, (((Path.ofRoot "functions[whirl].body").index 0).field "else").index 0⟩]
  unresolved := [.unresolvedCall "rest" "main" ((Path.ofRoot "actions").index 1)]

theorem relay_withoutUnused :
    ∃ g, CallGraph.ofProgram relay = .ok g ∧ (relay.withoutUnused g).functions.keys = ["hop"] ∧
      ∀ (evaluator : Evaluator) (limits : Limits) (w : World),
        run evaluator limits (relay.withoutUnused g) w = run evaluator limits relay w := by
  have hg : CallGraph.ofProgram relay = .ok relayGraph := rfl
  have hreached : relayGraph.reachableFrom 0 = [2, 0] := by
    simp [CallGraph.reachableFrom, CallGraph.explore, CallGraph.calleesOf, CallGraph.outgoing,
      relayGraph]
  have hunused (name : String) :
      .unusedFunction name ∈ relayGraph.unusedFunctions ↔ name = "spin" ∨ name = "whirl" := by
    have hnames : (relayGraph.functionNodes.filter fun v => !List.contains [2, 0] v).map
        relayGraph.nameOf = ["spin", "whirl"] := by decide
    simp only [CallGraph.unusedFunctions, hreached, hnames, List.mem_map, CallGraph.mem_sortNames]
    simp
  have hkeys : (relay.withoutUnused relayGraph).functions.keys = ["hop"] := by
    simp only [Program.withoutUnused, Table.filter, hunused]
    rfl
  exact ⟨relayGraph, hg, hkeys, (run_withoutUnused hg).1⟩

end Simulation

end BlockRobot
