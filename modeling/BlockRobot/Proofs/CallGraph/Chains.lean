import BlockRobot.Proofs.CallGraph.Usage

/-!
# Chains of calls between functions

`Program.Calls` says by name which function calls which. Chains of such calls are the chains of the call
graph between the nodes that have these names: `transGen_calls_iff` and `reached_iff`.
-/

namespace BlockRobot

open Relation (TransGen ReflTransGen)

namespace Program

/-- The function `f` calls the function `h` in some statement, at any depth. -/
def Calls (p : Program) (f h : String) : Prop :=
  ∃ function, p.function? f = some function ∧ .call h ∈ Statement.nodesOf function.body ∧
    h ∈ p.functions.keys

/-- A chain of calls leads from the actions to the function `h`. -/
def Uses (p : Program) (h : String) : Prop :=
  ∃ f, .call f ∈ Statement.nodesOf p.actions ∧ f ∈ p.functions.keys ∧ ReflTransGen p.Calls f h

theorem Uses.mem_keys {p : Program} {h : String} (huses : p.Uses h) : h ∈ p.functions.keys := by
  obtain ⟨f, _, hf, hchain⟩ := huses
  rcases ReflTransGen.cases_tail hchain with rfl | ⟨_, _, _, _, _, hh⟩
  · exact hf
  · exact hh

end Program

namespace CallGraph

variable {p : Program} {g : CallGraph} {u v : Nat} {f h name : String}

/-! ## Names and numbers -/

theorem exists_indexIn_iff {names : List String} :
    (∃ v, indexIn names name = some v) ↔ name ∈ names := by
  rw [← Option.isSome_iff_exists, indexIn, Option.isSome_map, List.isSome_idxOf?]

theorem name_unique (hf : indexIn p.functions.keys f = some v)
    (hh : indexIn p.functions.keys h = some v) : f = h := by
  obtain ⟨i, _, rfl⟩ := indexIn_eq_some_iff.mp hf
  have hnodup : p.functions.keys.Nodup := p.functions.nodup
  rw [indexIn_succ_iff hnodup] at hf hh
  exact Option.some.inj (hf.symm.trans hh)

theorem exists_function (hf : indexIn p.functions.keys f = some v) :
    ∃ function, p.function? f = some function ∧ p.bodies[v]? = some function.body := by
  have hmem : f ∈ p.functions.keys := exists_indexIn_iff.mp ⟨v, hf⟩
  rw [← Table.contains_iff_mem_keys] at hmem
  obtain ⟨function, hfunction⟩ := Option.isSome_iff_exists.mp hmem
  obtain ⟨w, hw, hbody⟩ := exists_indexIn hfunction
  obtain rfl : w = v := Option.some.inj (hw.symm.trans hf)
  exact ⟨function, hfunction, hbody⟩

/-! ## Single calls -/

theorem exists_name_of_calls (hg : ofProgram p = .ok g) (huv : g.Calls u v) :
    ∃ name, indexIn p.functions.keys name = some v := by
  obtain ⟨_, name, _, _, hname⟩ := (calls_iff hg).mp huv
  exact ⟨name, hname⟩

theorem not_calls_main (hg : ofProgram p = .ok g) : ¬ g.Calls u 0 := by
  intro hu
  obtain ⟨name, hname⟩ := exists_name_of_calls hg hu
  exact Nat.lt_irrefl 0 (indexIn_lt hname).1

theorem not_transGen_main (hg : ofProgram p = .ok g) : ¬ TransGen g.Calls u 0 := by
  intro hu
  obtain ⟨w, _, hcall⟩ := TransGen.tail'_iff.mp hu
  exact not_calls_main hg hcall

theorem calls_main_iff (hg : ofProgram p = .ok g) (hv : indexIn p.functions.keys h = some v) :
    g.Calls 0 v ↔ .call h ∈ Statement.nodesOf p.actions := by
  rw [calls_iff hg]
  constructor
  · rintro ⟨body, name, hbody, hcall, hname⟩
    obtain rfl : p.actions = body := Option.some.inj hbody
    rwa [name_unique hname hv] at hcall
  · intro hcall
    exact ⟨p.actions, h, rfl, hcall, hv⟩

theorem calls_names_iff (hg : ofProgram p = .ok g) (hu : indexIn p.functions.keys f = some u)
    (hv : indexIn p.functions.keys h = some v) : g.Calls u v ↔ p.Calls f h := by
  obtain ⟨function, hfunction, hbody⟩ := exists_function hu
  rw [calls_iff hg]
  constructor
  · rintro ⟨body, name, hbody', hcall, hname⟩
    obtain rfl : function.body = body := Option.some.inj (hbody.symm.trans hbody')
    rw [name_unique hname hv] at hcall
    exact ⟨function, hfunction, hcall, exists_indexIn_iff.mp ⟨v, hv⟩⟩
  · rintro ⟨function', hfunction', hcall, _⟩
    obtain rfl : function = function' := Option.some.inj (hfunction.symm.trans hfunction')
    exact ⟨function.body, h, hbody, hcall, hv⟩

/-! ## Chains -/

/-- Every node on a chain of calls, but the first, is a function and so has a name. -/
theorem transGen_calls_iff (hg : ofProgram p = .ok g) (hu : indexIn p.functions.keys f = some u)
    (hv : indexIn p.functions.keys h = some v) : TransGen g.Calls u v ↔ TransGen p.Calls f h := by
  constructor
  · intro huv
    induction huv generalizing h with
    | single hcall => exact .single ((calls_names_iff hg hu hv).mp hcall)
    | tail hchain hcall ih =>
      obtain ⟨_, _, hlast⟩ := TransGen.tail'_iff.mp hchain
      obtain ⟨name, hname⟩ := exists_name_of_calls hg hlast
      exact (ih hname).tail ((calls_names_iff hg hname hv).mp hcall)
  · intro hfh
    induction hfh generalizing v with
    | single hcall => exact .single ((calls_names_iff hg hu hv).mpr hcall)
    | tail hchain hcall ih =>
      obtain ⟨_, _, _, _, _, hmem⟩ := TransGen.tail'_iff.mp hchain
      obtain ⟨w, hw⟩ := exists_indexIn_iff.mpr hmem
      exact (ih hw).tail ((calls_names_iff hg hw hv).mpr hcall)

theorem reflTransGen_calls_iff (hg : ofProgram p = .ok g) (hu : indexIn p.functions.keys f = some u)
    (hv : indexIn p.functions.keys h = some v) :
    ReflTransGen g.Calls u v ↔ ReflTransGen p.Calls f h := by
  have heq : v = u ↔ h = f := by
    constructor
    · rintro rfl
      exact name_unique hv hu
    · rintro rfl
      exact Option.some.inj (hv.symm.trans hu)
  rw [Relation.reflTransGen_iff_eq_or_transGen, Relation.reflTransGen_iff_eq_or_transGen, heq,
    transGen_calls_iff hg hu hv]

theorem reached_iff (hg : ofProgram p = .ok g) (hv : indexIn p.functions.keys h = some v) :
    g.Reached v ↔ p.Uses h := by
  constructor
  · intro hreached
    rcases Relation.ReflTransGen.cases_head hreached with rfl | ⟨w, hw, hwv⟩
    · exact absurd (indexIn_lt hv).1 (Nat.lt_irrefl 0)
    · obtain ⟨name, hname⟩ := exists_name_of_calls hg hw
      exact ⟨name, (calls_main_iff hg hname).mp hw, exists_indexIn_iff.mp ⟨w, hname⟩,
        (reflTransGen_calls_iff hg hname hv).mp hwv⟩
  · rintro ⟨name, hcall, hmem, hchain⟩
    obtain ⟨w, hw⟩ := exists_indexIn_iff.mpr hmem
    exact .head ((calls_main_iff hg hw).mpr hcall) ((reflTransGen_calls_iff hg hw hv).mpr hchain)

/-! ## Sorting -/

theorem pairwise_le_mergeSort {α : Type} (text : α → String) (xs : List α) :
    (xs.mergeSort fun a b => !decide (text b < text a)).Pairwise fun a b => text a ≤ text b := by
  have hle (a b : α) : (!decide (text b < text a)) = true ↔ text a ≤ text b := by
    rw [Bool.not_eq_true', decide_eq_false_iff_not, String.not_lt]
  refine (List.pairwise_mergeSort (fun a b c hab hbc => ?_) (fun a b => ?_) xs).imp (hle _ _).mp
  · rw [hle] at hab hbc ⊢
    exact String.le_trans hab hbc
  · rw [Bool.or_eq_true, hle, hle]
    exact String.le_total (text a) (text b)

theorem pairwise_lt_sortNames {names : List String} (hnodup : names.Nodup) :
    (sortNames names).Pairwise (· < ·) := by
  have hne : (sortNames names).Pairwise (· ≠ ·) := (List.mergeSort_perm _ _).nodup_iff.mpr hnodup
  refine (pairwise_le_mergeSort id names).imp₂ (fun a b hle hne => ?_) hne
  rw [← String.not_le]
  exact fun hge => hne (String.le_antisymm hle hge)

theorem nodup_names (hg : ofProgram p = .ok g) {vs : List Nat} (hnodup : vs.Nodup)
    (hvs : ∀ v ∈ vs, v ∈ g.functionNodes) : (vs.map g.nameOf).Nodup := by
  refine hnodup.map_on fun u hu v hv heq => ?_
  have hu := (nameOf_eq_iff hg).mp ⟨hvs u hu, heq⟩
  have hv := (nameOf_eq_iff hg).mp ⟨hvs v hv, rfl⟩
  exact Option.some.inj (hu.symm.trans hv)

end CallGraph

end BlockRobot
