import BlockRobot.Run.Machine

/-!
# Steps of a machine

Every action takes a step, and the limits bound the steps: `advance_acted`.
-/

namespace BlockRobot

namespace Machine

variable {program : Program} {m m' : Machine} {w w' : World}

theorem splice_limits {children : List Instruction} (h : m.splice children = .ok m') :
    m'.limits = m.limits ∧ m'.steps = m.steps := by
  unfold splice ensureRoom at h
  split at h
  · cases h; exact ⟨rfl, rfl⟩
  · split at h
    · cases h
    · cases h; exact ⟨rfl, rfl⟩

theorem expandRange_limits {env : Bindings} {head : LoopHead} {body : List Statement}
    (h : m.expandRange w env head body = .ok m') : m'.limits = m.limits ∧ m'.steps = m.steps := by
  unfold expandRange at h
  split at h
  · split at h
    · cases h
    · simp only at h
      split at h
      · cases h
      · unfold ensureRoom at h
        split at h
        · cases h
        · exact splice_limits h
  · cases h; exact ⟨rfl, rfl⟩

theorem expandAction_limits {env : Bindings} {action : Action} {count : Option Expr}
    (h : m.expandAction w env action count = .ok m') :
    m'.limits = m.limits ∧ m'.steps = m.steps := by
  unfold expandAction at h
  split at h
  · cases h
  · split at h
    · cases h; exact ⟨rfl, rfl⟩
    · split at h
      · cases h
      · unfold ensureRoom at h
        split at h
        · cases h
        · have := splice_limits h
          split at this <;> exact this

theorem expand_limits {env : Bindings} {s : Statement} (h : m.expand program w env s = .ok m') :
    m'.limits = m.limits ∧ m'.steps = m.steps := by
  unfold expand at h
  split at h
  · exact splice_limits h
  · split at h
    · cases h; exact ⟨rfl, rfl⟩
    · split at h
      · cases h
      · exact splice_limits h
  · exact expandRange_limits h
  · split at h
    · exact splice_limits h
    · cases h
  · split at h
    · exact expandAction_limits h
    · cases h; exact ⟨rfl, rfl⟩

theorem perform_limits {i : Instruction} {stop : Option Stop}
    (h : m.perform program w i = (stop, m', w')) : m'.limits = m.limits ∧ m'.steps = m.steps := by
  unfold perform at h
  split at h
  · split at h <;> cases h <;> exact ⟨rfl, rfl⟩
  · simp only at h
    split at h
    · next he => cases h; have := expand_limits he; exact this
    · cases h; exact ⟨rfl, rfl⟩

theorem advanceWithin_acted {allowance : Nat} {a : Action}
    (h : advanceWithin program allowance m w = (.acted a, m', w')) :
    m'.limits = m.limits ∧ m.steps < m'.steps ∧ m'.steps ≤ m.steps + allowance := by
  induction allowance generalizing m w with
  | zero =>
    unfold advanceWithin at h
    split at h <;> simp at h
  | succ n ih =>
    unfold advanceWithin at h
    split at h
    · simp at h
    · next rest _ =>
      simp only at h
      split at h
      · next hp =>
        obtain ⟨hl, hs⟩ := perform_limits hp
        obtain ⟨hl', hlt, hle⟩ := ih h
        simp only [taken] at hl hs
        exact ⟨hl'.trans hl, by omega, by omega⟩
      · next hp =>
        obtain ⟨hl, hs⟩ := perform_limits hp
        simp only [Prod.mk.injEq] at h
        obtain ⟨_, rfl, _⟩ := h
        simp only [taken] at hl hs
        exact ⟨hl, by omega, by omega⟩

/-- An action takes a step that the limits allow. -/
theorem advance_acted {a : Action} (h : advance program m w = (.acted a, m', w')) :
    m'.limits = m.limits ∧ m.steps < m'.steps ∧ m'.steps ≤ m.limits.maxSteps := by
  obtain ⟨hl, hlt, hle⟩ := advanceWithin_acted h
  exact ⟨hl, hlt, by omega⟩

theorem advanceWithin_mono {allowance : Nat} {stop : Stop}
    (h : advanceWithin program allowance m w = (stop, m', w')) :
    m'.limits = m.limits ∧ m.steps ≤ m'.steps := by
  induction allowance generalizing m w with
  | zero =>
    unfold advanceWithin at h
    split at h <;> simp only [Prod.mk.injEq] at h <;> obtain ⟨_, rfl, _⟩ := h <;> simp [taken]
  | succ n ih =>
    unfold advanceWithin at h
    split at h
    · simp only [Prod.mk.injEq] at h
      obtain ⟨_, rfl, _⟩ := h
      exact ⟨rfl, Nat.le_refl _⟩
    · simp only at h
      split at h
      · next hp =>
        obtain ⟨hl, hs⟩ := perform_limits hp
        obtain ⟨hl', hle⟩ := ih h
        simp only [taken] at hl hs
        exact ⟨hl'.trans hl, by omega⟩
      · next hp =>
        obtain ⟨hl, hs⟩ := perform_limits hp
        simp only [Prod.mk.injEq] at h
        obtain ⟨_, rfl, _⟩ := h
        simp only [taken] at hl hs
        exact ⟨hl, by omega⟩

/-- The limits of a machine stay, and its steps never become fewer. -/
theorem advance_mono {stop : Stop} (h : advance program m w = (stop, m', w')) :
    m'.limits = m.limits ∧ m.steps ≤ m'.steps :=
  advanceWithin_mono h

end Machine

end BlockRobot
