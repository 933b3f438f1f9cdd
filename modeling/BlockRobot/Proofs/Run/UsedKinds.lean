import BlockRobot.Proofs.Run.Activations
import BlockRobot.Proofs.Run.Goals
import BlockRobot.Proofs.Run.Replay
import BlockRobot.Proofs.Run.Unused

/-!
# The kinds of statements in use

A run adds a kind to those in use when it comes to a statement of that kind, and at no other time
(`Machine.mem_used_run`). Such a statement stands where calls lead from the actions, and the statement that an
action belongs to was come to before it. So a goal that asks for kinds of statements cannot be met by others:
`Simulation.used_exact`.
-/

namespace BlockRobot

open Statement (nodesOf)

/-! ## Statements that a program can come to -/

/-- The statement stands, at any depth, in the actions or in a function that is listed as reachable. -/
def CallGraph.Lists (g : CallGraph) (p : Program) (s : Statement) : Prop :=
  s ∈ nodesOf p.actions ∨
    ∃ name ∈ g.reachableFunctions, ∃ f, p.function? name = some f ∧ s ∈ nodesOf f.body

theorem CallGraph.InUse.lists {g : CallGraph} {p : Program} {s : Statement} (hg : ofProgram p = .ok g)
    (h : g.InUse p s) : g.Lists p s := by
  obtain ⟨u, body, hreached, hbody, hs⟩ := h
  cases u with
  | zero =>
    cases hbody
    exact .inl hs
  | succ i =>
    rw [bodies_succ] at hbody
    obtain ⟨⟨name, f⟩, hentry, rfl⟩ := Option.map_eq_some_iff.mp hbody
    have hf : p.function? name = some f :=
      (Entries.get?_eq_some_iff p.functions.nodup).mpr (List.mem_of_getElem? hentry)
    have hindex : indexIn p.functions.keys name = some (i + 1) := by
      refine (indexIn_succ_iff p.functions.nodup).mpr ?_
      rw [Entries.keys, List.getElem?_map, hentry]
      rfl
    exact .inr ⟨name, (mem_reachableFunctions hg).mpr ⟨i + 1, hindex, hreached⟩, f, hf, hs⟩

namespace Machine

variable {p : Program} {m m₁ : Machine} {w w₁ : World} {k : Kind} {s : Statement}

/-- The run comes to the statement, with a step left to expand it. -/
inductive ComesTo (p : Program) (m : Machine) (w : World) (s : Statement) : Prop where
  | intro {as : List Action} {m₁ : Machine} {w₁ : World} {env : Bindings} {rest : Queue Instruction}
      (steps : Steps p m w as m₁ w₁) (front : m₁.pending.pop? = some (.node s env, rest))
      (allowed : m₁.steps < m₁.limits.maxSteps)

theorem ComesTo.earlier {a? : Option Action} (h : ComesTo p m₁ w₁ s) (first : Step p m w a? m₁ w₁) :
    ComesTo p m w s := by
  obtain ⟨steps, front, allowed⟩ := h
  exact .intro (.step first steps) front allowed

theorem ComesTo.later {as : List Action} (h : ComesTo p m₁ w₁ s) (before : Steps p m w as m₁ w₁) :
    ComesTo p m w s := by
  obtain ⟨steps, front, allowed⟩ := h
  exact .intro (before.trans steps) front allowed

/-! ## Where the kinds come from -/

theorem Steps.used_cases {as : List Action} (h : Steps p m w as m₁ w₁) (hk : k ∈ m₁.used) :
    k ∈ m.used ∨ ∃ s, s.kind = k ∧ ComesTo p m w s := by
  induction h with
  | refl => exact .inl hk
  | step first _ ih =>
    rcases ih hk with hk | ⟨s, hs, hcomes⟩
    · cases first with
      | act => exact .inl hk
      | node front allowed =>
        rcases KindSet.mem_insert.mp hk with rfl | hk
        · exact .inr ⟨_, rfl, .intro (.refl _ _) front allowed⟩
        · exact .inl hk
    · exact .inr ⟨s, hs, hcomes.earlier first⟩

theorem Halt.used_cases {f? : Option Failure} (h : Halt p m w f? m₁) (hk : k ∈ m₁.used) :
    k ∈ m.used ∨ ∃ s, s.kind = k ∧ ComesTo p m w s := by
  cases h with
  | exhausted | stepLimit | refused => exact .inl hk
  | failed front allowed | limited front allowed =>
    rcases KindSet.mem_insert.mp hk with rfl | hk
    · exact .inr ⟨_, rfl, .intro (.refl _ _) front allowed⟩
    · exact .inl hk

theorem ComesTo.kind_mem_used (h : ComesTo p m w s) : s.kind ∈ (m.run p w).machine.used := by
  obtain ⟨steps, front, allowed⟩ := h
  rw [run_eq_steps steps]
  exact run_used_front front allowed

/-- The kinds in use at the end of a run are those from before it and those of the statements that it comes
to. -/
theorem mem_used_run (p : Program) (m : Machine) (w : World) (k : Kind) :
    k ∈ (m.run p w).machine.used ↔ k ∈ m.used ∨ ∃ s, s.kind = k ∧ ComesTo p m w s := by
  constructor
  · intro hk
    obtain ⟨m₁, hsteps, hhalt⟩ := exists_steps_halt p m w
    rcases hhalt.used_cases hk with hk | ⟨s, hs, hcomes⟩
    · exact hsteps.used_cases hk
    · exact .inr ⟨s, hs, hcomes.later hsteps⟩
  · rintro (hk | ⟨s, rfl, hcomes⟩)
    · exact run_used_subset p m w hk
    · exact hcomes.kind_mem_used

theorem ComesTo.lists {g : CallGraph} {limits : Limits} (hg : CallGraph.ofProgram p = .ok g)
    (h : ComesTo p (.new p limits) w s) : g.Lists p s := by
  obtain ⟨steps, front, -⟩ := h
  exact ((steps.queued (hereditary_inUse hg) (queued_inUse limits)).front front).lists hg

/-! ## The kinds of actions -/

def ActsUsed (m : Machine) : Prop := ∀ a, .act a ∈ m.pending.items → a.kind ∈ m.used

theorem actsUsed_new (p : Program) (limits : Limits) : (Machine.new p limits).ActsUsed := by
  intro a ha
  obtain ⟨s, -, hs⟩ := List.mem_map.mp ha
  cases hs

theorem expansion_acts {env : Bindings} {last : Option Kind} {x : Expansion} {a : Action}
    (h : expansion p w env last s = .ok x) (ha : .act a ∈ x.children) : a.kind = s.kind := by
  rcases expansion_activation h with ⟨y, count, -, hacts, hchildren, -⟩ | ⟨-, hnodes, -⟩
  · rw [hchildren] at ha
    obtain ⟨b, hb, hab⟩ := List.mem_map.mp ha
    cases hab
    rw [List.eq_of_mem_replicate hb]
    exact kind_of_action? hacts
  · obtain ⟨t, env', ht⟩ := hnodes _ ha
    cases ht

theorem Step.actsUsed {a? : Option Action} (h : Step p m w a? m₁ w₁) (hm : m.ActsUsed) :
    m₁.ActsUsed := by
  cases h with
  | act front =>
    intro b hb
    refine hm b ?_
    rw [Queue.pop?_eq_some_iff.mp front]
    exact List.mem_cons_of_mem _ hb
  | node front _ expands =>
    intro b hb
    rcases List.mem_append.mp hb with hb | hb
    · exact KindSet.mem_insert.mpr (.inl (expansion_acts expands hb))
    · refine KindSet.mem_insert.mpr (.inr (hm b ?_))
      rw [Queue.pop?_eq_some_iff.mp front]
      exact List.mem_cons_of_mem _ hb

theorem ActsUsed.front {a : Action} {rest : Queue Instruction} (h : m.ActsUsed)
    (hp : m.pending.pop? = some (.act a, rest)) : a.kind ∈ m.used := by
  refine h a ?_
  rw [Queue.pop?_eq_some_iff.mp hp]
  exact List.mem_cons_self

theorem Steps.actsUsed {as : List Action} (h : Steps p m w as m₁ w₁) (hm : m.ActsUsed) :
    m₁.ActsUsed ∧ ∀ a ∈ as, a.kind ∈ m₁.used := by
  induction h with
  | refl => exact ⟨hm, fun a ha => by cases ha⟩
  | @step _ _ _ _ _ _ a? as first rest ih =>
    obtain ⟨hlast, hrest⟩ := ih (first.actsUsed hm)
    refine ⟨hlast, fun b hb => ?_⟩
    rcases List.mem_append.mp hb with hb | hb
    · cases first with
      | act front =>
        rw [List.mem_singleton.mp hb]
        exact rest.grows.used _ (hm.front front)
      | node => cases hb
    · exact hrest b hb

theorem Halt.actsUsed {f : Failure} {a : Action} (h : Halt p m w (some f) m₁) (hm : m.ActsUsed)
    (ha : f.action = some a) : a.kind ∈ m₁.used := by
  cases h with
  | stepLimit | limited => cases ha
  | refused front =>
    cases ha
    exact hm.front front
  | failed _ _ expands =>
    obtain ⟨action, error⟩ := f
    cases ha
    obtain ⟨-, count, hacts⟩ := expansion_error_action expands
    exact KindSet.mem_insert.mpr (.inl (kind_of_action? hacts))

end Machine

/-! ## Simulations -/

namespace Simulation

theorem kind_mem_used (evaluator : Evaluator) (limits : Limits) (p : Program) (w : World) {a : Action}
    (ha : a ∈ (run evaluator limits p w).1.actions) : a.kind ∈ (run evaluator limits p w).1.used := by
  let t := (Machine.new p limits).run p w
  have hrun : (run evaluator limits p w).1 = ofTrace evaluator t := rfl
  obtain ⟨m₁, hsteps, hhalt⟩ := Machine.exists_steps_halt p (.new p limits) w
  obtain ⟨hm₁, hdone⟩ := hsteps.actsUsed (Machine.actsUsed_new p limits)
  have hactions : ∀ a ∈ t.actions, a.kind ∈ t.machine.used :=
    fun b hb => hhalt.used_subset (hdone b hb)
  rw [hrun] at ha ⊢
  rw [used_ofTrace]
  cases hf : t.failure with
  | none =>
    rw [ofTrace, hf] at ha
    exact hactions a ha
  | some f =>
    rw [ofTrace, hf] at ha
    rcases List.mem_append.mp ha with ha | ha
    · exact hactions a ha
    · have hfails : Machine.Halt p m₁ t.world (some f) t.machine := hf ▸ hhalt
      exact hfails.actsUsed hm₁ (Option.mem_toList.mp ha)

/-- The kinds in use after a simulation are those that loading wrote out and those of the statements that the
run came to, all of them in the actions or in functions that are listed as reachable. The actions of the report
are of such kinds, and so is what a goal asks for if the run reaches it. -/
theorem used_exact {p : Program} {g : CallGraph} (hg : CallGraph.ofProgram p = .ok g) (evaluator : Evaluator)
    (limits : Limits) (w : World) :
    let s := (run evaluator limits p w).1
    (∀ k ∈ p.unrolled, k ∈ s.used) ∧ (∀ a ∈ s.actions, a.kind ∈ s.used) ∧
    (∀ t, Machine.ComesTo p (.new p limits) w t → t.kind ∈ s.used) ∧
    (∀ k ∈ s.used, k ∉ p.unrolled →
      ∃ t, t.kind = k ∧ Machine.ComesTo p (.new p limits) w t ∧ g.Lists p t) ∧
    ∀ goal : Goal, (run goal limits p w).1.outcome.won = true → ∀ k ∈ goal.required, k ∉ p.unrolled →
      ∃ t, t.kind = k ∧ Machine.ComesTo p (.new p limits) w t ∧ g.Lists p t := by
  intro s
  let t := (Machine.new p limits).run p w
  have hused (e : Evaluator) : (run e limits p w).1.used = t.machine.used := used_ofTrace e t
  have hsource : ∀ k ∈ t.machine.used, k ∉ p.unrolled →
      ∃ t, t.kind = k ∧ Machine.ComesTo p (.new p limits) w t ∧ g.Lists p t := by
    intro k hk hnew
    rcases (Machine.mem_used_run p (.new p limits) w k).mp hk with hold | ⟨t, ht, hcomes⟩
    · exact absurd hold hnew
    · exact ⟨t, ht, hcomes, hcomes.lists hg⟩
  refine ⟨fun k hk => ?_, fun a ha => kind_mem_used evaluator limits p w ha, fun t ht => ?_,
    fun k hk hnew => hsource k (hused evaluator ▸ hk) hnew, fun goal hwon k hk hnew => ?_⟩
  · rw [hused]
    exact (Machine.mem_used_run p (.new p limits) w k).mpr (.inl hk)
  · rw [hused]
    exact ht.kind_mem_used
  · have hrun : (run goal limits p w).1 = ofTrace goal t := rfl
    rw [hrun, won_ofTrace_iff] at hwon
    have hreached : goal.Reached t.world t.machine.used := Goal.judge_won_iff.mp hwon.2
    exact hsource k (hreached.kinds k hk) hnew

/-- Walks only in a function, and has a function that it does not call. -/
def outing : Program :=
  ⟨"1", none, .ofEntries [("stroll", ⟨"stroll", [.forward (.number 1)]⟩), ("nap", ⟨"nap", [.call "nap"]⟩)],
    [.turnBack, .turnBack, .call "stroll"], 0, .ofList [.repeatTimes], []⟩

def outingGoal : Goal := ⟨.empty, none, [.repeatTimes, .forward]⟩

theorem outing_used_exact :
    ∃ g, CallGraph.ofProgram outing = .ok g ∧
      (run outingGoal .standard outing (World.new 2 1)).1.outcome.won = true ∧
      .repeatTimes ∈ (run outingGoal .standard outing (World.new 2 1)).1.used ∧
      ∃ t, t.kind = .forward ∧ Machine.ComesTo outing (.new outing .standard) (World.new 2 1) t ∧
        ∃ name ∈ g.reachableFunctions, ∃ f, outing.function? name = some f ∧ t ∈ nodesOf f.body := by
  obtain ⟨g, hg⟩ : ∃ g, CallGraph.ofProgram outing = .ok g := ⟨_, rfl⟩
  have hwon : (run outingGoal .standard outing (World.new 2 1)).1.outcome.won = true := by decide +kernel
  obtain ⟨hunrolled, -, -, -, hgoal⟩ := used_exact hg outingGoal .standard (World.new 2 1)
  obtain ⟨t, ht, hcomes, hactions | hfunction⟩ :=
    hgoal outingGoal hwon .forward (by decide) (by decide +kernel)
  · have hkinds : .forward ∉ (nodesOf outing.actions).map Statement.kind := by decide
    exact absurd (ht ▸ List.mem_map_of_mem hactions) hkinds
  · exact ⟨g, hg, hwon, hunrolled _ (by decide +kernel), t, ht, hcomes, hfunction⟩

end Simulation

end BlockRobot
