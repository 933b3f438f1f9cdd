import BlockRobot.Proofs.Run.Steps

/-!
# Queues without limits

`Unfolds` runs a queue of instructions to its end without any limit. A run that its limits do not
cut short unfolds its queue (`run_unfolds`), an unfolding has one result (`Unfolds.unique`), and
limits that are large enough do not cut it short (`Unfolds.unlimited`).
-/

namespace BlockRobot

/-- What the statements of a run see and change: the world, and the kind of the latest statement that
acted. -/
structure Scene where
  world : World
  last : Option Kind

inductive Ending where
  | done (scene : Scene)
  | failed (failure : Failure) (scene : Scene)

def Ending.of (f? : Option Failure) (σ : Scene) : Ending :=
  match f? with
  | none => .done σ
  | some f => .failed f σ

namespace Trace

def ending (t : Trace) : Ending := .of t.failure ⟨t.world, t.machine.last⟩

def isCut (t : Trace) : Bool := t.failure.any (·.error.isLimit)

end Trace

/-- What happens in a run: it comes to a statement, or does an action. -/
inductive Mark where
  | entered (kind : Kind)
  | did (action : Action)
  deriving DecidableEq, Repr

namespace Mark

def action? : Mark → Option Action
  | .did a => some a
  | .entered _ => none

def actions (marks : List Mark) : List Action := marks.filterMap action?

def used (before : KindSet) : List Mark → KindSet
  | [] => before
  | .entered k :: rest => used (before.insert k) rest
  | .did _ :: rest => used before rest

end Mark

namespace Machine

/-- Runs a queue of instructions to its end. -/
inductive Unfolds (program : Program) : List Instruction → Scene → List Mark → Ending → Prop where
  | done {σ : Scene} : Unfolds program [] σ [] (.done σ)
  | act {a : Action} {rest : List Instruction} {σ : Scene} {w : World} {t : List Mark} {e : Ending}
      (applied : a.apply σ.world = .ok w) (goes : Unfolds program rest ⟨w, σ.last⟩ t e) :
      Unfolds program (.act a :: rest) σ (.did a :: t) e
  | refused {a : Action} {rest : List Instruction} {σ : Scene} {r : Refusal}
      (applied : a.apply σ.world = .error r) :
      Unfolds program (.act a :: rest) σ [] (.failed ⟨some a, .refused r⟩ σ)
  | node {s : Statement} {env : Bindings} {rest : List Instruction} {σ : Scene} {x : Expansion}
      {t : List Mark} {e : Ending} (expands : expansion program σ.world env σ.last s = .ok x)
      (goes : Unfolds program (x.children ++ rest) ⟨σ.world, x.last⟩ t e) :
      Unfolds program (.node s env :: rest) σ (.entered s.kind :: t) e
  | failed {s : Statement} {env : Bindings} {rest : List Instruction} {σ : Scene} {f : Failure}
      (expands : expansion program σ.world env σ.last s = .error f) :
      Unfolds program (.node s env :: rest) σ [.entered s.kind] (.failed f σ)

variable {program : Program} {m m₁ : Machine} {w w₁ : World}

theorem Unfolds.unique {q : List Instruction} {σ : Scene} {t t' : List Mark} {e e' : Ending}
    (h : Unfolds program q σ t e) (h' : Unfolds program q σ t' e') : t = t' ∧ e = e' := by
  induction h generalizing t' e' with
  | done => cases h'; exact ⟨rfl, rfl⟩
  | act applied _ ih =>
    cases h' with
    | act applied' goes' =>
      cases applied.symm.trans applied'
      obtain ⟨rfl, rfl⟩ := ih goes'
      exact ⟨rfl, rfl⟩
    | refused applied' => cases applied.symm.trans applied'
  | refused applied =>
    cases h' with
    | act applied' _ => cases applied.symm.trans applied'
    | refused applied' =>
      cases applied.symm.trans applied'
      exact ⟨rfl, rfl⟩
  | node expands _ ih =>
    cases h' with
    | node expands' goes' =>
      cases expands.symm.trans expands'
      obtain ⟨rfl, rfl⟩ := ih goes'
      exact ⟨rfl, rfl⟩
    | failed expands' => cases expands.symm.trans expands'
  | failed expands =>
    cases h' with
    | node expands' _ => cases expands.symm.trans expands'
    | failed expands' =>
      cases expands.symm.trans expands'
      exact ⟨rfl, rfl⟩

/-! ## Runs unfold their queue -/

theorem Halt.unfolds {f? : Option Failure} (h : Halt program m w f? m₁)
    (hcut : f?.any (·.error.isLimit) = false) :
    ∃ t, Unfolds program m.pending.items ⟨w, m.last⟩ t (.of f? ⟨w, m₁.last⟩) ∧
      Mark.actions t = [] ∧ Mark.used m.used t = m₁.used := by
  cases h with
  | exhausted front =>
    rw [Queue.pop?_eq_none_iff.mp front]
    exact ⟨[], .done, rfl, rfl⟩
  | stepLimit => simp [RunError.isLimit] at hcut
  | refused front _ applied =>
    rw [Queue.pop?_eq_some_iff.mp front]
    exact ⟨[], .refused applied, rfl, rfl⟩
  | failed front _ expands =>
    rw [Queue.pop?_eq_some_iff.mp front]
    exact ⟨_, .failed expands, rfl, rfl⟩
  | limited _ _ _ _ _ limit => simp [limit] at hcut

theorem Step.unfolds {a? : Option Action} {t : List Mark} {e : Ending}
    (h : Step program m w a? m₁ w₁) (ht : Unfolds program m₁.pending.items ⟨w₁, m₁.last⟩ t e) :
    ∃ t', Unfolds program m.pending.items ⟨w, m.last⟩ t' e ∧
      Mark.actions t' = a?.toList ++ Mark.actions t ∧ Mark.used m.used t' = Mark.used m₁.used t := by
  cases h with
  | act front _ applied =>
    rw [Queue.pop?_eq_some_iff.mp front]
    exact ⟨_, .act applied ht, rfl, rfl⟩
  | node front _ expands _ =>
    rw [Queue.pop?_eq_some_iff.mp front]
    exact ⟨_, .node expands ht, rfl, rfl⟩

theorem Steps.unfolds {as : List Action} {t : List Mark} {e : Ending}
    (h : Steps program m w as m₁ w₁) (ht : Unfolds program m₁.pending.items ⟨w₁, m₁.last⟩ t e) :
    ∃ t', Unfolds program m.pending.items ⟨w, m.last⟩ t' e ∧
      Mark.actions t' = as ++ Mark.actions t ∧ Mark.used m.used t' = Mark.used m₁.used t := by
  induction h with
  | refl => exact ⟨t, ht, rfl, rfl⟩
  | step first _ ih =>
    obtain ⟨t₁, h₁, hacts, hused⟩ := ih ht
    obtain ⟨t₂, h₂, hacts', hused'⟩ := first.unfolds h₁
    exact ⟨t₂, h₂, by rw [hacts', hacts, List.append_assoc], hused'.trans hused⟩

theorem run_unfolds (hcut : (m.run program w).isCut = false) :
    ∃ t, Unfolds program m.pending.items ⟨w, m.last⟩ t (m.run program w).ending ∧
      Mark.actions t = (m.run program w).actions ∧
      Mark.used m.used t = (m.run program w).machine.used := by
  obtain ⟨m₁, hsteps, hhalt⟩ := exists_steps_halt program m w
  obtain ⟨t, ht, hacts, hused⟩ := hhalt.unfolds hcut
  obtain ⟨t', ht', hacts', hused'⟩ := hsteps.unfolds ht
  exact ⟨t', ht', by rw [hacts', hacts, List.append_nil], hused'.trans hused⟩

/-! ## Limits that do not matter -/

theorem count_le_maxCount {α : Type} [Scalar α] (span : Span α) : span.count.getD 0 ≤ maxCount := by
  unfold Span.count
  split
  · exact Nat.zero_le _
  · simp only
    split
    · exact Nat.zero_le _
    · exact Nat.min_le_right _ _

theorem expansion_rounds_le {env : Bindings} {last : Option Kind} {s : Statement} {x : Expansion}
    (h : expansion program w env last s = .ok x) : x.rounds ≤ maxCount := by
  cases Expands.of_eq h with
  | range => exact count_le_maxCount _
  | _ => exact Nat.zero_le _

theorem expansion_error_not_limit {env : Bindings} {last : Option Kind} {s : Statement} {f : Failure}
    (h : expansion program w env last s = .error f) : f.error.isLimit = false := by
  cases Expands.of_eq h with
  | short _ _ _ lacks =>
    obtain ⟨_, _, _, rfl⟩ := shortage_eq lacks
    rfl
  | _ => rfl

/-- An unfolding takes a number of instructions, and limits beyond it do not cut it short. -/
theorem Unfolds.unlimited {q : List Instruction} {σ : Scene} {t : List Mark} {e : Ending}
    (h : Unfolds program q σ t e) :
    ∃ n, ∀ m : Machine, m.pending.items = q → m.last = σ.last → m.steps + n ≤ m.limits.maxSteps →
      n ≤ m.limits.maxQueue → maxCount ≤ m.limits.maxRange →
      (m.run program σ.world).isCut = false := by
  induction h with
  | done =>
    refine ⟨0, fun m hq _ _ _ _ => ?_⟩
    rw [run_halt (.exhausted (Queue.pop?_eq_none_iff.mpr hq))]
    rfl
  | @act a rest σ w t e applied _ ih =>
    obtain ⟨n, ih⟩ := ih
    refine ⟨n + 1, fun m hq hlast hsteps hqueue hrange => ?_⟩
    have hp : m.pending.pop? = some (.act a, .ofList rest) := Queue.pop?_eq_some_iff.mpr hq
    rw [run_act (.act hp (by omega) applied)]
    exact ih (m.acted (.ofList rest)) rfl hlast
      (by simp only [acted, taken]; omega) (by simp only [acted, taken]; omega) hrange
  | @refused a rest σ r applied =>
    refine ⟨1, fun m hq _ hsteps _ _ => ?_⟩
    have hp : m.pending.pop? = some (.act a, .ofList rest) := Queue.pop?_eq_some_iff.mpr hq
    rw [run_halt (.refused hp (by omega) applied)]
    rfl
  | @node s env rest σ x t e expands _ ih =>
    obtain ⟨n, ih⟩ := ih
    -- Besides the steps, the queue needs room for what the statement expands to.
    refine ⟨max (n + 1) (rest.length + x.children.length),
      fun m hq hlast hsteps hqueue hrange => ?_⟩
    have hp : m.pending.pop? = some (.node s env, .ofList rest) := Queue.pop?_eq_some_iff.mpr hq
    have hfits : x.Fits m.limits (Queue.ofList rest).size :=
      ⟨Nat.le_trans (expansion_rounds_le expands) hrange,
        fun _ => Nat.le_trans (Nat.le_max_right _ _) hqueue⟩
    rw [← hlast] at expands
    rw [run_silent (.node hp (by omega) expands hfits)]
    exact ih ((m.entered (.ofList rest) s).enqueue x) rfl rfl
      (by simp only [enqueue, entered, taken]; omega)
      (by simp only [enqueue, entered, taken]; omega) hrange
  | @failed s env rest σ f expands =>
    refine ⟨1, fun m hq hlast hsteps _ _ => ?_⟩
    have hp : m.pending.pop? = some (.node s env, .ofList rest) := Queue.pop?_eq_some_iff.mpr hq
    rw [← hlast] at expands
    rw [run_halt (.failed hp (by omega) expands)]
    exact expansion_error_not_limit expands

end Machine

end BlockRobot
