import BlockRobot.Proofs.CallGraph.Calls

/-!
# The functions that a program uses

A function is listed as reachable exactly if a chain of calls leads to it from the actions
(`mem_reachableFunctions`), and as unused exactly if none does (`mem_unusedFunctions`). The statements
of the actions and of the functions that are reached are in use, and so is all that they nest and call:
`InUse.nested`, `InUse.called`.
-/

namespace BlockRobot

namespace CallGraph

open Relation (ReflTransGen)

variable {p : Program} {g : CallGraph} {v : Nat} {name : String}

def Reached (g : CallGraph) (v : Nat) : Prop := ReflTransGen g.Calls 0 v

/-! ## Names and numbers -/

theorem nodes_ofProgram (hg : ofProgram p = .ok g) :
    g.nodes = .main :: p.functions.entries.map fun e =>
      .function e.1 (Statement.nodesOf e.2.body).length := by
  unfold ofProgram at hg
  split at hg
  · cases hg
  · cases hg
    rfl

theorem indexIn_succ_iff {names : List String} (hnodup : names.Nodup) {i : Nat} :
    indexIn names name = some (i + 1) ↔ names[i]? = some name := by
  simp only [indexIn_eq_some_iff, Nat.succ.injEq, List.idxOf?_eq_some_iff,
    List.getElem?_eq_some_iff]
  constructor
  · rintro ⟨_, ⟨hi, hname, _⟩, rfl⟩
    exact ⟨hi, hname⟩
  · rintro ⟨hi, rfl⟩
    refine ⟨i, ⟨hi, rfl, fun j hj heq => ?_⟩, rfl⟩
    exact Nat.ne_of_lt hj ((hnodup.getElem_inj_iff).mp heq)

theorem nameOf_eq_iff (hg : ofProgram p = .ok g) :
    (v ∈ g.functionNodes ∧ g.nameOf v = name) ↔ indexIn p.functions.keys name = some v := by
  cases v with
  | zero =>
    constructor
    · rintro ⟨hv, _⟩
      exact absurd (mem_functionNodes.mp hv).1 (Nat.lt_irrefl 0)
    · intro h
      exact absurd (indexIn_lt h).1 (Nat.lt_irrefl 0)
  | succ i =>
    have hnodup : p.functions.keys.Nodup := p.functions.nodup
    rw [indexIn_succ_iff hnodup, mem_functionNodes, nameOf, nodes_ofProgram hg]
    simp only [Table.keys, Entries.keys, List.length_cons, List.length_map, List.getElem?_cons_succ,
      List.getElem?_map, Nat.succ_lt_succ_iff, Nat.succ_pos, true_and]
    cases he : p.functions.entries[i]? with
    | none => simp [List.getElem?_eq_none_iff.mp he]
    | some e => simp [(List.getElem?_eq_some_iff.mp he).1, CallNode.name]

/-! ## Findings -/

theorem mem_sortNames {names : List String} : name ∈ sortNames names ↔ name ∈ names :=
  List.mem_mergeSort

theorem mem_reachableFrom_main (hg : ofProgram p = .ok g) : v ∈ g.reachableFrom 0 ↔ g.Reached v := by
  have hmain : 0 < g.nodes.length := by simp [nodes_ofProgram hg]
  exact mem_reachableFrom (inRange_ofProgram hg) hmain

theorem mem_reachableFunctions (hg : ofProgram p = .ok g) :
    name ∈ g.reachableFunctions ↔ ∃ v, indexIn p.functions.keys name = some v ∧ g.Reached v := by
  simp only [reachableFunctions, mem_sortNames, List.mem_map, List.mem_filter, List.contains_iff_mem,
    mem_reachableFrom_main hg, ← nameOf_eq_iff hg]
  exact exists_congr fun v => and_right_comm

theorem mem_unusedFunctions (hg : ofProgram p = .ok g) :
    .unusedFunction name ∈ g.unusedFunctions ↔
      ∃ v, indexIn p.functions.keys name = some v ∧ ¬ g.Reached v := by
  simp only [unusedFunctions, List.mem_map, CallFinding.unusedFunction.injEq, exists_eq_right,
    mem_sortNames, List.mem_filter, Bool.not_eq_true', ← Bool.not_eq_true, List.contains_iff_mem,
    mem_reachableFrom_main hg, ← nameOf_eq_iff hg]
  exact exists_congr fun v => and_right_comm

/-! ## Statements in use -/

/-- The statement stands, at any depth, in a body that the actions lead to. -/
def InUse (g : CallGraph) (p : Program) (s : Statement) : Prop :=
  ∃ u body, g.Reached u ∧ p.bodies[u]? = some body ∧ s ∈ Statement.nodesOf body

variable {s t : Statement} {f : Function}

theorem inUse_of_mem_actions (h : s ∈ p.actions) : g.InUse p s :=
  ⟨0, p.actions, .refl, rfl, Statement.mem_nodesOf_of_mem h⟩

theorem InUse.nested (hs : g.InUse p s) (ht : t ∈ s.nested) : g.InUse p t := by
  obtain ⟨u, body, hu, hbody, hs⟩ := hs
  refine ⟨u, body, hu, hbody, Statement.nodesOf_subset body hs ?_⟩
  rw [Statement.nodes_eq]
  exact List.mem_cons_of_mem _ (Statement.mem_nodesOf_of_mem ht)

theorem InUse.reached (hg : ofProgram p = .ok g) (hcall : g.InUse p (.call name))
    (hv : indexIn p.functions.keys name = some v) : g.Reached v := by
  obtain ⟨u, body, hu, hbody, hs⟩ := hcall
  exact hu.tail ((calls_iff hg).mpr ⟨body, name, hbody, hs, hv⟩)

theorem InUse.called (hg : ofProgram p = .ok g) (hcall : g.InUse p (.call name))
    (hf : p.function? name = some f) (ht : t ∈ f.body) : g.InUse p t := by
  obtain ⟨v, hv, hbody⟩ := exists_indexIn hf
  exact ⟨v, f.body, hcall.reached hg hv, hbody, Statement.mem_nodesOf_of_mem ht⟩

end CallGraph

end BlockRobot
