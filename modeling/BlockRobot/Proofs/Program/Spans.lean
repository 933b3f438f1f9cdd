import Mathlib.Algebra.Order.Floor.Semifield
import Mathlib.Data.Rat.Floor
import Mathlib.Order.Interval.Set.Nat
import Mathlib.Tactic.Linarith
import BlockRobot.Proofs.Program.Wholes
import BlockRobot.Proofs.Run.Structural

/-!
# What a counted range counts

Over exact numbers the members of a range that do not pass its end are the first so many, and as many as the
range counts: `Span.count_members`.
-/

namespace BlockRobot

instance : Scalar ℚ where
  ofNat n := n
  isZero x := decide (x = 0)
  isFinite _ := true
  less a b := decide (a < b)
  whole x := ⌊x⌋₊

namespace Span

def firsts {α : Type} [Scalar α] (s : Span α) (n : Nat) : List α := (List.range n).map s.member

/-- The values that a loop over the range gives its variable, in order. -/
def values {α : Type} [Scalar α] (s : Span α) : List α := s.firsts (s.count.getD 0)

/-- A number does not pass the end of the range in the direction of its step. -/
def Within (s : Span ℚ) (x : ℚ) : Prop := (0 < s.step → x ≤ s.last) ∧ (s.step < 0 → s.last ≤ x)

/-- The numbers of the steps that stay within the range. -/
def indices (s : Span ℚ) : Set ℕ := {k | s.Within (s.first + k * s.step)}

def members (s : Span ℚ) : Set ℚ := {x | ∃ k : ℕ, x = s.first + k * s.step ∧ s.Within x}

def Before (s : Span ℚ) (x y : ℚ) : Prop := 0 < s.step ∧ x < y ∨ s.step < 0 ∧ y < x

variable {s : Span ℚ}

def way (s : Span ℚ) : ℚ := (s.last - s.first) / s.step

theorem member_eq (s : Span ℚ) (k : ℕ) : s.member k = s.first + k * s.step := by
  rw [mul_comm]
  rfl

/-! ## Steps -/

theorem mem_indices_iff_le (h : s.step ≠ 0) (k : ℕ) : k ∈ s.indices ↔ (k : ℚ) ≤ s.way := by
  change s.Within _ ↔ _
  rcases lt_or_gt_of_ne h with hneg | hpos
  · rw [Within, way, le_div_iff_of_neg hneg]
    constructor
    · rintro ⟨-, hlast⟩
      linarith [hlast hneg]
    · intro hle
      exact ⟨fun hpos => absurd hpos hneg.not_gt, fun _ => by linarith⟩
  · rw [Within, way, le_div_iff₀ hpos]
    constructor
    · rintro ⟨hlast, -⟩
      linarith [hlast hpos]
    · intro hle
      exact ⟨fun _ => by linarith, fun hneg => absurd hneg hpos.not_gt⟩

/-- The number of steps within the range: none if its end lies the other way. -/
def steps (s : Span ℚ) : ℕ := if s.way < 0 then 0 else ⌊s.way⌋₊ + 1

theorem indices_eq (h : s.step ≠ 0) : s.indices = Set.Iio s.steps := by
  ext k
  rw [mem_indices_iff_le h, Set.mem_Iio, steps]
  split
  · next hneg =>
    have hk : (0 : ℚ) ≤ k := Nat.cast_nonneg k
    exact ⟨fun hle => absurd (hk.trans hle) (not_le.mpr hneg), fun hlt => absurd hlt (Nat.not_lt_zero k)⟩
  · next hpos => rw [← Nat.le_floor_iff (not_lt.mp hpos), Nat.lt_succ_iff]

theorem way_neg_iff (s : Span ℚ) :
    s.way < 0 ↔ 0 < s.step ∧ s.last < s.first ∨ s.step < 0 ∧ s.first < s.last := by
  rw [way, div_neg_iff, sub_pos, sub_neg]
  tauto

theorem count_eq (h : s.step ≠ 0) : s.count = some (min s.steps maxCount) := by
  have hstep : (Scalar.isZero s.step || !Scalar.isFinite s.step) = false := by
    simp [Scalar.isZero, Scalar.isFinite, h]
  have hwrong : ((Scalar.less (Scalar.ofNat 0) s.step && Scalar.less s.last s.first) ||
      (Scalar.less s.step (Scalar.ofNat 0) && Scalar.less s.first s.last)) = decide (s.way < 0) := by
    simp [Scalar.less, Scalar.ofNat, way_neg_iff]
  rw [count, hstep, hwrong, steps]
  by_cases hway : s.way < 0
  · simp [hway]
  · simp only [hway, decide_false, Bool.false_eq_true, if_false]
    rfl

theorem finite_indices (h : s.step ≠ 0) : s.indices.Finite := by
  rw [indices_eq h]
  exact Set.finite_Iio s.steps

theorem ncard_indices (h : s.step ≠ 0) : s.indices.ncard = s.steps := by
  rw [indices_eq h, Set.ncard_Iio_nat]

/-! ## Members -/

theorem before_member (h : s.step ≠ 0) {i j : ℕ} (hij : i < j) : s.Before (s.member i) (s.member j) := by
  have hlt : (i : ℚ) < j := Nat.cast_lt.mpr hij
  rw [member_eq, member_eq]
  rcases lt_or_gt_of_ne h with hneg | hpos
  · exact .inr ⟨hneg, by linarith [mul_lt_mul_of_neg_right hlt hneg]⟩
  · exact .inl ⟨hpos, by linarith [mul_lt_mul_of_pos_right hlt hpos]⟩

theorem pairwise_firsts (h : s.step ≠ 0) (n : ℕ) : (s.firsts n).Pairwise s.Before :=
  List.pairwise_map.mpr (List.pairwise_lt_range.imp fun hij => before_member h hij)

theorem mem_firsts {n : ℕ} {x : ℚ} : x ∈ s.firsts n ↔ ∃ k < n, s.member k = x := by
  simp only [firsts, List.mem_map, List.mem_range]

theorem mem_members {x : ℚ} : x ∈ s.members ↔ ∃ k ∈ s.indices, s.member k = x := by
  constructor
  · rintro ⟨k, rfl, hk⟩
    exact ⟨k, hk, member_eq s k⟩
  · rintro ⟨k, hk, rfl⟩
    rw [member_eq]
    exact ⟨k, rfl, hk⟩

theorem values_eq (h : s.step ≠ 0) : s.values = s.firsts (min s.steps maxCount) := by
  rw [values, count_eq h, Option.getD_some]

theorem mem_members_of_mem_values (h : s.step ≠ 0) {x : ℚ} (hx : x ∈ s.values) : x ∈ s.members := by
  rw [values_eq h] at hx
  obtain ⟨k, hk, rfl⟩ := mem_firsts.mp hx
  have hsteps : k ∈ s.indices := by
    rw [indices_eq h]
    exact lt_of_lt_of_le hk (min_le_left _ _)
  exact mem_members.mpr ⟨k, hsteps, rfl⟩

/-- A member is only missed by a range that is cut short, and then it comes after all that are not. -/
theorem before_of_notMem_values (h : s.step ≠ 0) {x : ℚ} (hx : x ∈ s.members) (hmissed : x ∉ s.values) :
    maxCount < s.steps ∧ ∀ y ∈ s.values, s.Before y x := by
  rw [values_eq h] at hmissed ⊢
  obtain ⟨k, hk, rfl⟩ := mem_members.mp hx
  rw [indices_eq h] at hk
  have hle : min s.steps maxCount ≤ k := by
    by_contra hlt
    exact hmissed (mem_firsts.mpr ⟨k, not_le.mp hlt, rfl⟩)
  refine ⟨?_, fun y hy => ?_⟩
  · by_contra hall
    rw [min_eq_left (not_lt.mp hall)] at hle
    exact absurd hk (not_lt.mpr hle)
  · obtain ⟨j, hj, rfl⟩ := mem_firsts.mp hy
    exact before_member h (hj.trans_le hle)

/-! ## Whole numbers of rounds -/

theorem steps_times (c : ℕ) : (times c : Span ℚ).steps = c := by
  have hway : (times c : Span ℚ).way = c - 1 := div_one _
  cases c with
  | zero => rw [steps, hway, if_pos (by norm_num)]
  | succ c =>
    rw [Nat.cast_succ, add_sub_cancel_right] at hway
    rw [steps, hway, if_neg (not_lt.mpr (Nat.cast_nonneg c)), Nat.floor_natCast]

theorem count_times {c : ℕ} (h : c ≤ maxCount) : (times c : Span ℚ).count = some c := by
  rw [count_eq (s := times c) one_ne_zero, steps_times, min_eq_left h]

end Span

/-! ## Loops -/

namespace Machine

variable {m m' : Machine} {w : World} {env : Bindings} {head : LoopHead} {body : List Statement}

theorem rounds_eq_flatMap (name : Option String) (s : Span Float) (env : Bindings) (body : List Statement) :
    rounds name s env body (s.count.getD 0) = s.values.flatMap fun x => nodesIn (env.bind name x) body := by
  rw [Span.values, Span.firsts, List.flatMap_map]
  cases name <;> rfl

theorem items_expandRange {s : Span Float} (hfirst : head.first.value? w env = some s.first)
    (hlast : head.last.value? w env = some s.last) (hstep : head.step.value? w env = some s.step)
    (h : m.expandRange w env head body = .ok m') :
    m'.pending.items =
      (s.values.flatMap fun x => nodesIn (env.bind head.counter? x) body) ++ m.pending.items := by
  have hexpanded := expanded_range m w env head body
  rw [h] at hexpanded
  simp only [rangeExpansion, hfirst, hlast, hstep, rounds_eq_flatMap] at hexpanded
  split at hexpanded
  · cases hexpanded
  · cases hexpanded
    rfl

end Machine

/-- A range counts its members, up to the largest count, and a loop gives its variable these members in their
order. A loop of `n` rounds has `n` of them, by exact numbers and by the doubles that hold such a number. -/
theorem Span.count_members :
    (∀ s : Span ℚ, s.step ≠ 0 →
      s.indices.Finite ∧ s.count = some (min s.indices.ncard maxCount) ∧
        s.values = (List.range (min s.indices.ncard maxCount)).map (fun i : ℕ => s.first + s.step * i) ∧
        s.values.Pairwise s.Before ∧ (∀ x ∈ s.values, x ∈ s.members) ∧
        ∀ x ∈ s.members, x ∉ s.values → maxCount < s.indices.ncard ∧ ∀ y ∈ s.values, s.Before y x) ∧
    (∀ n ≤ maxCount, (LoopHead.times n).static? = some (times n) ∧ (times n : Span ℚ).count = some n ∧
      (n < 2 ^ 53 → (LoopHead.times n).staticCount = some n)) ∧
    ∀ (m m' : Machine) (w : World) (env : Bindings) (head : LoopHead) (body : List Statement) (s : Span Float),
      head.first.value? w env = some s.first → head.last.value? w env = some s.last →
      head.step.value? w env = some s.step → m.expandRange w env head body = .ok m' →
      m'.pending.items =
        (s.values.flatMap fun x => nodesIn (env.bind head.counter? x) body) ++ m.pending.items := by
  refine ⟨fun s h => ?_, fun n hn => ⟨rfl, count_times hn, LoopHead.staticCount_times⟩,
    fun m m' w env head body s => Machine.items_expandRange⟩
  rw [ncard_indices h]
  refine ⟨finite_indices h, count_eq h, values_eq h, ?_, fun x => mem_members_of_mem_values h,
    fun x => before_of_notMem_values h⟩
  rw [values_eq h]
  exact pairwise_firsts h _

/-- Down from `3` in steps of three quarters: the last step falls short of the end. -/
def Span.descent : Span ℚ := ⟨3, 1 / 2, -3 / 4⟩

def LoopHead.countdown : LoopHead := ⟨some "i", .number 3, .number 1, .number (-1)⟩

theorem Span.count_members_descent :
    descent.step ≠ 0 ∧ descent.count = some 4 ∧ descent.indices.ncard = 4 ∧
      descent.values = [3, 9 / 4, 3 / 2, 3 / 4] ∧ (∀ x ∈ descent.values, x ∈ descent.members) ∧
      (LoopHead.times 0).staticCount = some 0 ∧
      ∃ m, (Machine.new errand .standard).expandRange errandWorld .empty .countdown [.turnLeft] = .ok m ∧
        m.pending.items = [3, 2, 1].map (fun x => .node .turnLeft (Bindings.bind .empty "i" x)) ++
          nodesIn .empty errand.actions := by
  obtain ⟨hspans, htimes, hexpands⟩ := Span.count_members
  have hstep : descent.step ≠ 0 := by norm_num [descent]
  have hsteps : descent.indices.ncard = 4 := by
    rw [ncard_indices hstep]
    norm_num [steps, way, descent]
  obtain ⟨-, hcount, hvalues, -, hmembers, -⟩ := hspans descent hstep
  rw [hsteps] at hcount hvalues
  have hlisted : descent.values = [3, 9 / 4, 3 / 2, 3 / 4] := by
    rw [hvalues]
    norm_num [descent, maxCount, List.range_succ]
  have hfloats : (⟨3, 1, -1⟩ : Span Float).values = [3, 2, 1] := by decide +kernel
  have hexpanded : ((Machine.new errand .standard).expandRange errandWorld .empty .countdown [.turnLeft]).isOk =
      true := by decide +kernel
  obtain ⟨m, hm⟩ : ∃ m, (Machine.new errand .standard).expandRange errandWorld .empty .countdown [.turnLeft] =
      .ok m := by
    cases h : (Machine.new errand .standard).expandRange errandWorld .empty .countdown [.turnLeft] with
    | ok m => exact ⟨m, rfl⟩
    | error f => rw [h] at hexpanded; cases hexpanded
  refine ⟨hstep, hcount, hsteps, hlisted, hmembers, (htimes 0 (Nat.zero_le _)).2.2 (by decide), m, hm, ?_⟩
  have hitems := hexpands _ m errandWorld .empty .countdown [.turnLeft] ⟨3, 1, -1⟩ (by decide +kernel)
    (by decide +kernel) (by decide +kernel) hm
  rw [hitems, hfloats]
  rfl

end BlockRobot
