import BlockRobot.CallGraph
import Mathlib.Data.List.Nodup
import Mathlib.Logic.Relation

/-!
# Reachability in the call graph

The search of the call graph finds what chains of calls lead to, and nothing else (`mem_explore`). So
there is no finding of recursion exactly when no chain of calls leads from a function back to itself:
`recursion_eq_nil_iff`.
-/

namespace BlockRobot

namespace CallGraph

open Relation (TransGen ReflTransGen)

variable {g : CallGraph} {u v x : Nat} {cycle : List Nat}

def Calls (g : CallGraph) (u v : Nat) : Prop := ∃ e ∈ g.edges, e.caller = u ∧ e.callee = v

theorem mem_calleesOf : v ∈ g.calleesOf u ↔ g.Calls u v := by
  simp [calleesOf, outgoing, Calls, and_assoc]

def InRange (g : CallGraph) : Prop := ∀ u v, g.Calls u v → v < g.nodes.length

theorem InRange.lt_of_transGen (hg : g.InRange) (h : TransGen g.Calls u v) : v < g.nodes.length := by
  cases h with
  | single h => exact hg _ _ h
  | tail _ h => exact hg _ _ h

/-! ## Exploring -/

theorem explore_sound {todo seen : List Nat} (h : x ∈ g.explore todo seen) :
    x ∈ seen ∨ ∃ v ∈ todo, ReflTransGen g.Calls v x := by
  fun_induction explore g todo seen with
  | case1 seen => exact .inl h
  | case2 seen v todo _ ih =>
    rcases ih h with hx | ⟨u, hu, hux⟩
    · rcases List.mem_cons.mp hx with rfl | hx
      · exact .inr ⟨x, List.mem_cons_self, .refl⟩
      · exact .inl hx
    · rcases List.mem_append.mp hu with hu | hu
      · exact .inr ⟨v, List.mem_cons_self, .head (mem_calleesOf.mp hu) hux⟩
      · exact .inr ⟨u, List.mem_cons_of_mem _ hu, hux⟩
  | case3 seen v todo _ ih =>
    rcases ih h with hx | ⟨u, hu, hux⟩
    · exact .inl hx
    · exact .inr ⟨u, List.mem_cons_of_mem _ hu, hux⟩

theorem seen_subset_explore {todo seen : List Nat} (h : x ∈ seen) : x ∈ g.explore todo seen := by
  fun_induction explore g todo seen with
  | case1 seen => exact h
  | case2 seen v todo _ ih => exact ih (List.mem_cons_of_mem _ h)
  | case3 seen v todo _ ih => exact ih h

theorem todo_subset_explore {todo seen : List Nat} (h : x ∈ todo) (hx : x < g.nodes.length) :
    x ∈ g.explore todo seen := by
  fun_induction explore g todo seen with
  | case1 seen => cases h
  | case2 seen v todo _ ih =>
    rcases List.mem_cons.mp h with rfl | h
    · exact seen_subset_explore List.mem_cons_self
    · exact ih (List.mem_append_right _ h)
  | case3 seen v todo hv ih =>
    rcases List.mem_cons.mp h with rfl | h
    · have hs : x ∈ seen := by simpa [hx] using hv
      exact seen_subset_explore hs
    · exact ih h

/-- The nodes seen so far call only each other and what is still to do. -/
def Covered (g : CallGraph) (todo seen : List Nat) : Prop :=
  ∀ u ∈ seen, ∀ v, g.Calls u v → v ∈ seen ∨ v ∈ todo

theorem explore_closed {todo seen : List Nat} (hg : g.InRange) (hcov : g.Covered todo seen)
    (hu : u ∈ g.explore todo seen) (huv : g.Calls u v) : v ∈ g.explore todo seen := by
  fun_induction explore g todo seen with
  | case1 seen => exact (hcov u hu v huv).elim id (fun h => nomatch h)
  | case2 seen y todo _ ih =>
    refine ih (fun a ha b hab => ?_) hu
    rcases List.mem_cons.mp ha with rfl | ha
    · exact .inr (List.mem_append_left _ (mem_calleesOf.mpr hab))
    · rcases hcov a ha b hab with hb | hb
      · exact .inl (List.mem_cons_of_mem _ hb)
      · rcases List.mem_cons.mp hb with rfl | hb
        · exact .inl List.mem_cons_self
        · exact .inr (List.mem_append_right _ hb)
  | case3 seen y todo hy ih =>
    refine ih (fun a ha b hab => ?_) hu
    rcases hcov a ha b hab with hb | hb
    · exact .inl hb
    · rcases List.mem_cons.mp hb with rfl | hb
      · have hs : b ∈ seen := by simpa [hg a b hab] using hy
        exact .inl hs
      · exact .inr hb

theorem mem_explore (hg : g.InRange) {todo : List Nat} (htodo : ∀ v ∈ todo, v < g.nodes.length) :
    x ∈ g.explore todo [] ↔ ∃ v ∈ todo, ReflTransGen g.Calls v x := by
  constructor
  · intro h
    exact (explore_sound h).resolve_left (fun h => nomatch h)
  · rintro ⟨v, hv, hvx⟩
    induction hvx with
    | refl => exact todo_subset_explore hv (htodo v hv)
    | tail _ hstep ih => exact explore_closed hg (fun u hu => nomatch hu) ih hstep

theorem mem_reachableFrom (hg : g.InRange) (hu : u < g.nodes.length) :
    x ∈ g.reachableFrom u ↔ ReflTransGen g.Calls u x := by
  rw [reachableFrom, mem_explore hg (List.forall_mem_singleton.mpr hu)]
  simp only [List.mem_singleton, exists_eq_left]

theorem mem_reachedBy (hg : g.InRange) : x ∈ g.reachedBy u ↔ TransGen g.Calls u x := by
  rw [reachedBy, mem_explore hg (fun v hv => hg u v (mem_calleesOf.mp hv)),
    Relation.TransGen.head'_iff]
  simp only [mem_calleesOf]

theorem leads_iff (hg : g.InRange) (hu : u < g.nodes.length) :
    leads g.closure u v = true ↔ TransGen g.Calls u v := by
  simp [leads, closure, List.getD_eq_getElem?_getD, hu, mem_reachedBy hg]

/-! ## Recursion -/

theorem mem_functionNodes : v ∈ g.functionNodes ↔ 0 < v ∧ v < g.nodes.length := by
  rw [functionNodes]
  cases g.nodes.length with
  | zero => simp
  | succ n =>
    rw [List.range_succ_eq_map, List.drop_succ_cons, List.drop_zero]
    cases v <;> simp

theorem nodup_functionNodes (g : CallGraph) : g.functionNodes.Nodup :=
  List.nodup_range.sublist (List.drop_sublist 1 _)

theorem mem_cycleOf (hg : g.InRange) (hv : v < g.nodes.length) :
    x ∈ g.cycleOf g.closure v ↔
      x ∈ g.functionNodes ∧ TransGen g.Calls v x ∧ TransGen g.Calls x v := by
  simp only [cycleOf, List.mem_filter, Bool.and_eq_true]
  refine and_congr_right fun hx => ?_
  rw [leads_iff hg hv, leads_iff hg (mem_functionNodes.mp hx).2]

theorem cycleOf_eq (hg : g.InRange) (hu : u < g.nodes.length) (hv : v < g.nodes.length)
    (huv : TransGen g.Calls u v) (hvu : TransGen g.Calls v u) :
    g.cycleOf g.closure u = g.cycleOf g.closure v := by
  refine List.filter_congr fun x hx => ?_
  have hx := (mem_functionNodes.mp hx).2
  rw [Bool.eq_iff_iff]
  simp only [Bool.and_eq_true, leads_iff hg hu, leads_iff hg hv, leads_iff hg hx]
  constructor
  · rintro ⟨hux, hxu⟩
    exact ⟨hvu.trans hux, hxu.trans huv⟩
  · rintro ⟨hvx, hxv⟩
    exact ⟨huv.trans hvx, hxv.trans hvu⟩

theorem mem_cycles :
    cycle ∈ g.cycles ↔ ∃ v ∈ g.functionNodes, g.cycleOf g.closure v = cycle ∧ cycle.head? = some v := by
  simp only [cycles, List.mem_filterMap]
  refine exists_congr fun v => and_congr_right fun _ => ?_
  split
  · next h =>
    rw [Option.some.injEq]
    exact ⟨fun hc => ⟨hc, hc ▸ h⟩, And.left⟩
  · next h =>
    constructor
    · intro hc
      cases hc
    · rintro ⟨rfl, hhead⟩
      exact absurd hhead h

theorem cycleOf_mem_cycles (hg : g.InRange) (hv : v ∈ g.functionNodes) (hvv : TransGen g.Calls v v) :
    g.cycleOf g.closure v ∈ g.cycles := by
  have hlt := (mem_functionNodes.mp hv).2
  have hmem : v ∈ g.cycleOf g.closure v := (mem_cycleOf hg hlt).mpr ⟨hv, hvv, hvv⟩
  obtain ⟨u, rest, hu⟩ := List.exists_cons_of_ne_nil (List.ne_nil_of_mem hmem)
  obtain ⟨hfun, hvu, huv⟩ := (mem_cycleOf hg hlt).mp (hu ▸ List.mem_cons_self : u ∈ _)
  have hcycle := cycleOf_eq hg (mem_functionNodes.mp hfun).2 hlt huv hvu
  exact mem_cycles.mpr ⟨u, hfun, hcycle, by rw [hu]; rfl⟩

theorem nodup_cycleOf (closure : List (List Nat)) (v : Nat) : (g.cycleOf closure v).Nodup :=
  g.nodup_functionNodes.filter _

theorem nodup_cycles (g : CallGraph) : g.cycles.Nodup := by
  refine List.Nodup.filterMap (fun v v' cycle hv hv' => ?_) g.nodup_functionNodes
  simp only [Option.mem_def, Option.ite_none_right_eq_some, Option.some.injEq] at hv hv'
  obtain ⟨hhead, rfl⟩ := hv
  obtain ⟨hhead', heq⟩ := hv'
  rw [heq, hhead] at hhead'
  exact Option.some.inj hhead'

theorem cycles_subset_functionNodes (hcycle : cycle ∈ g.cycles) : ∀ v ∈ cycle, v ∈ g.functionNodes := by
  obtain ⟨u, _, rfl, _⟩ := mem_cycles.mp hcycle
  exact fun v hv => (List.mem_filter.mp hv).1

theorem eq_cycleOf_of_mem (hg : g.InRange) (hcycle : cycle ∈ g.cycles) (hv : v ∈ cycle) :
    g.cycleOf g.closure v = cycle ∧ TransGen g.Calls v v := by
  obtain ⟨u, hu, rfl, _⟩ := mem_cycles.mp hcycle
  have hu := (mem_functionNodes.mp hu).2
  obtain ⟨hfun, huv, hvu⟩ := (mem_cycleOf hg hu).mp hv
  exact ⟨cycleOf_eq hg (mem_functionNodes.mp hfun).2 hu hvu huv, hvu.trans huv⟩

theorem cycles_eq_nil_iff (hg : g.InRange) :
    g.cycles = [] ↔ ∀ v ∈ g.functionNodes, ¬ TransGen g.Calls v v := by
  rw [List.eq_nil_iff_forall_not_mem]
  constructor
  · intro hcycles v hv hvv
    exact hcycles _ (cycleOf_mem_cycles hg hv hvv)
  · intro hacyclic cycle hcycle
    obtain ⟨v, hv, _, hhead⟩ := mem_cycles.mp hcycle
    exact hacyclic v hv (eq_cycleOf_of_mem hg hcycle (List.mem_of_mem_head? hhead)).2

theorem recursion_eq_nil_iff (hg : g.InRange) :
    g.recursion = [] ↔ ∀ v ∈ g.functionNodes, ¬ TransGen g.Calls v v := by
  rw [← cycles_eq_nil_iff hg, ← List.length_eq_zero_iff, ← List.length_eq_zero_iff]
  simp only [recursion, List.length_mergeSort, List.length_map]

end CallGraph

end BlockRobot
