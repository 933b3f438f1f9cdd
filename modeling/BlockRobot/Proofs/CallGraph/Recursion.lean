import BlockRobot.Proofs.CallGraph.Components

/-!
# Recursion

A function that a chain of calls leads back to is listed in one finding, together with the functions that
it leads to and that lead to it: `recursion_exact`. These groups are the strongly connected components of
the call graph, except for the nodes that do not call themselves: `recursion_perm_components`.
-/

namespace BlockRobot

def CallFinding.concerns (f : String) : CallFinding → Bool
  | .recursion cycle => cycle.contains f
  | .unresolvedCall _ _ _ | .unusedFunction _ => false

namespace CallGraph

open Relation (TransGen ReflTransGen)

variable {p : Program} {g : CallGraph} {v : Nat} {cycle : List Nat} {f h : String}

/-! ## Findings and groups -/

theorem filter_eq_singleton {α : Type} {xs : List α} {q : α → Bool} {a : α} (hnodup : xs.Nodup)
    (ha : a ∈ xs) (hq : q a = true) (huniq : ∀ b ∈ xs, q b = true → b = a) : xs.filter q = [a] := by
  refine List.perm_singleton.mp ((List.perm_ext_iff_of_nodup (hnodup.filter q) (by simp)).mpr fun b => ?_)
  rw [List.mem_filter, List.mem_singleton]
  constructor
  · exact fun hb => huniq b hb.1 hb.2
  · rintro rfl
    exact ⟨ha, hq⟩

theorem filter_cycles (hg : g.InRange) (hv : v ∈ g.functionNodes) (hvv : TransGen g.Calls v v) :
    g.cycles.filter (·.contains v) = [g.cycleOf g.closure v] := by
  refine filter_eq_singleton g.nodup_cycles (cycleOf_mem_cycles hg hv hvv) ?_ fun cycle hcycle hmem => ?_
  · rw [List.contains_iff_mem, mem_cycleOf hg (mem_functionNodes.mp hv).2]
    exact ⟨hv, hvv, hvv⟩
  · rw [List.contains_iff_mem] at hmem
    exact (eq_cycleOf_of_mem hg hcycle hmem).1.symm

def findingOf (g : CallGraph) (cycle : List Nat) : CallFinding :=
  .recursion (sortNames (cycle.map g.nameOf))

theorem recursion_perm (g : CallGraph) : g.recursion.Perm (g.cycles.map g.findingOf) :=
  (List.mergeSort_perm _ _).trans ((List.mergeSort_perm _ _).map _)

theorem mem_names_iff (hg : ofProgram p = .ok g) (hv : indexIn p.functions.keys f = some v)
    (hcycle : ∀ u ∈ cycle, u ∈ g.functionNodes) :
    f ∈ sortNames (cycle.map g.nameOf) ↔ v ∈ cycle := by
  rw [mem_sortNames, List.mem_map]
  constructor
  · rintro ⟨u, hu, hname⟩
    have hindex := (nameOf_eq_iff hg).mp ⟨hcycle u hu, hname⟩
    rwa [← Option.some.inj (hindex.symm.trans hv)]
  · intro hmem
    exact ⟨v, hmem, ((nameOf_eq_iff hg).mpr hv).2⟩

theorem concerns_findingOf (hg : ofProgram p = .ok g) (hv : indexIn p.functions.keys f = some v)
    (hcycle : ∀ u ∈ cycle, u ∈ g.functionNodes) :
    (g.findingOf cycle).concerns f = cycle.contains v := by
  rw [Bool.eq_iff_iff, findingOf, CallFinding.concerns, List.contains_iff_mem, List.contains_iff_mem]
  exact mem_names_iff hg hv hcycle

theorem exists_of_concerns (hg : ofProgram p = .ok g) {finding : CallFinding}
    (hfinding : finding ∈ g.recursion) (hf : finding.concerns f = true) :
    ∃ v, indexIn p.functions.keys f = some v ∧ TransGen g.Calls v v := by
  obtain ⟨cycle, hcycle, rfl⟩ := List.mem_map.mp (g.recursion_perm.mem_iff.mp hfinding)
  simp only [findingOf, CallFinding.concerns, List.contains_iff_mem, mem_sortNames, List.mem_map] at hf
  obtain ⟨v, hv, hname⟩ := hf
  have hindex := (nameOf_eq_iff hg).mp ⟨cycles_subset_functionNodes hcycle v hv, hname⟩
  exact ⟨v, hindex, (eq_cycleOf_of_mem (inRange_ofProgram hg) hcycle hv).2⟩

theorem filter_recursion (hg : ofProgram p = .ok g) (hv : indexIn p.functions.keys f = some v)
    (hvv : TransGen g.Calls v v) :
    g.recursion.filter (·.concerns f) = [g.findingOf (g.cycleOf g.closure v)] := by
  have hfun : v ∈ g.functionNodes := ((nameOf_eq_iff hg).mpr hv).1
  refine List.perm_singleton.mp ((g.recursion_perm.filter _).trans (.of_eq ?_))
  have hconcerns : g.cycles.filter ((·.concerns f) ∘ g.findingOf) = g.cycles.filter (·.contains v) :=
    List.filter_congr fun cycle hcycle =>
      concerns_findingOf hg hv (cycles_subset_functionNodes hcycle)
  rw [List.filter_map, hconcerns, filter_cycles (inRange_ofProgram hg) hfun hvv, List.map_singleton]

theorem findingOf_perm {cycle cycle' : List Nat} (hperm : cycle.Perm cycle') :
    g.findingOf cycle = g.findingOf cycle' := by
  have hnames : (sortNames (cycle.map g.nameOf)).Perm (sortNames (cycle'.map g.nameOf)) :=
    ((List.mergeSort_perm _ _).trans (hperm.map _)).trans (List.mergeSort_perm _ _).symm
  exact congrArg CallFinding.recursion (hnames.eq_of_pairwise (fun _ _ _ _ => String.le_antisymm)
    (pairwise_le_mergeSort id _) (pairwise_le_mergeSort id _))

/-- The findings are those about the components in which some node leads to itself. -/
theorem recursion_perm_components (hg : ofProgram p = .ok g) {comps : List (List Nat)}
    (hc : g.Components comps) :
    g.recursion.Perm ((comps.filter g.isRecursive).map g.findingOf) := by
  refine g.recursion_perm.trans (((hc.perm_cycles hg).map _).symm.trans (.of_eq ?_))
  rw [List.map_map]
  exact List.map_congr_left fun comp hcomp => (findingOf_perm (hc.perm_groupOf hg hcomp)).symm

/-! ## Exactness -/

theorem concerns_iff (hg : ofProgram p = .ok g) :
    (∃ finding ∈ g.recursion, finding.concerns f = true) ↔ TransGen p.Calls f f := by
  constructor
  · rintro ⟨finding, hfinding, hf⟩
    obtain ⟨v, hv, hvv⟩ := exists_of_concerns hg hfinding hf
    exact (transGen_calls_iff hg hv hv).mp hvv
  · intro hff
    obtain ⟨_, _, _, _, _, hmem⟩ := TransGen.tail'_iff.mp hff
    obtain ⟨v, hv⟩ := exists_indexIn_iff.mpr hmem
    have hfilter := filter_recursion hg hv ((transGen_calls_iff hg hv hv).mpr hff)
    exact ⟨_, List.mem_filter.mp (hfilter ▸ List.mem_singleton.mpr rfl)⟩

theorem mem_names_cycleOf_iff (hg : ofProgram p = .ok g) (hv : indexIn p.functions.keys f = some v) :
    h ∈ sortNames ((g.cycleOf g.closure v).map g.nameOf) ↔
      TransGen p.Calls f h ∧ TransGen p.Calls h f := by
  have hrange := inRange_ofProgram hg
  have hlt := (mem_functionNodes.mp ((nameOf_eq_iff hg).mpr hv).1).2
  constructor
  · intro hmem
    obtain ⟨u, hu, hname⟩ := List.mem_map.mp (mem_sortNames.mp hmem)
    obtain ⟨hfun, hvu, huv⟩ := (mem_cycleOf hrange hlt).mp hu
    have hu := (nameOf_eq_iff hg).mp ⟨hfun, hname⟩
    exact ⟨(transGen_calls_iff hg hv hu).mp hvu, (transGen_calls_iff hg hu hv).mp huv⟩
  · rintro ⟨hfh, hhf⟩
    obtain ⟨_, _, _, _, _, hmem⟩ := TransGen.tail'_iff.mp hfh
    obtain ⟨u, hu⟩ := exists_indexIn_iff.mpr hmem
    refine (mem_names_iff hg hu fun w hw => List.mem_of_mem_filter hw).mpr ?_
    refine (mem_cycleOf hrange hlt).mpr ⟨((nameOf_eq_iff hg).mpr hu).1, ?_, ?_⟩
    · exact (transGen_calls_iff hg hv hu).mpr hfh
    · exact (transGen_calls_iff hg hu hv).mpr hhf

theorem exists_concerns {finding : CallFinding} (hfinding : finding ∈ g.recursion) :
    ∃ f, finding.concerns f = true := by
  obtain ⟨cycle, hcycle, rfl⟩ := List.mem_map.mp (g.recursion_perm.mem_iff.mp hfinding)
  obtain ⟨v, _, _, hhead⟩ := mem_cycles.mp hcycle
  refine ⟨g.nameOf v, ?_⟩
  rw [findingOf, CallFinding.concerns, List.contains_iff_mem, mem_sortNames]
  exact List.mem_map_of_mem (List.mem_of_mem_head? hhead)

/-- A function is listed in a finding of recursion if and only if a chain of calls leads from it back to
itself. It is then listed in one finding, with the functions that it leads to and that lead to it. So the
findings are those about the strongly connected components, in whatever order these are found; the actions
are a component that gives none. -/
theorem recursion_exact (hg : ofProgram p = .ok g) :
    (∀ f, (∃ finding ∈ g.recursion, finding.concerns f = true) ↔ TransGen p.Calls f f) ∧
      (∀ f, TransGen p.Calls f f → ∃ cycle : List String,
        g.recursion.filter (·.concerns f) = [.recursion cycle] ∧ cycle.Pairwise (· < ·) ∧
          ∀ h, h ∈ cycle ↔ TransGen p.Calls f h ∧ TransGen p.Calls h f) ∧
      (∀ finding ∈ g.recursion, ∃ f, finding.concerns f = true) ∧
      (g.Components g.components ∧ ∀ comps, g.Components comps →
        [0] ∈ comps ∧ g.isRecursive [0] = false ∧
          g.recursion.Perm ((comps.filter g.isRecursive).map g.findingOf)) ∧
      (g.recursion.map CallFinding.message).Pairwise (· ≤ ·) := by
  refine ⟨fun f => concerns_iff hg, fun f hff => ?_, fun finding => exists_concerns,
    ⟨components_components (inRange_ofProgram hg), fun comps hc => ?_⟩, ?_⟩
  · obtain ⟨_, _, _, _, _, hmem⟩ := TransGen.tail'_iff.mp hff
    obtain ⟨v, hv⟩ := exists_indexIn_iff.mpr hmem
    refine ⟨_, filter_recursion hg hv ((transGen_calls_iff hg hv hv).mpr hff), ?_,
      fun h => mem_names_cycleOf_iff hg hv⟩
    exact pairwise_lt_sortNames (nodup_names hg (nodup_cycleOf _ v) fun u hu =>
      List.mem_of_mem_filter hu)
  · obtain ⟨hmain, hsingle⟩ := hc.main_mem hg
    exact ⟨hmain, hsingle, recursion_perm_components hg hc⟩
  · rw [List.pairwise_map]
    exact pairwise_le_mergeSort CallFinding.message _

/-- Two functions that call each other, and one with the name of the actions that calls itself. -/
def echo : Program :=
  ⟨"1", none, ⟨[("pong", ⟨"pong", [.ifElse (.sensor "hasItem" true) []
        [(.sensor "isGreen" true, [.call "ping", .call "ping"])] [.call "main"]]⟩),
      ("ping", ⟨"ping", [.whileLoop (.sensor "hasItem" true) [.call "pong"], .call "rest"]⟩),
      ("main", ⟨"main", [.turnLeft, .call "main"]⟩)], by decide⟩,
    [.call "ping", .call "main"], 0, .empty, []⟩

theorem calls_echo {f h : String} : echo.Calls f h ↔
    (f, h) ∈ [("pong", "ping"), ("pong", "main"), ("ping", "pong"), ("main", "main")] := by
  constructor
  · rintro ⟨function, hfunction, hcall, hmem⟩
    have hkeys : h ∈ ["pong", "ping", "main"] := hmem
    have hentry := Entries.mem_of_get? hfunction
    simp only [echo, List.mem_cons, Prod.mk.injEq, List.not_mem_nil, or_false] at hentry hkeys
    obtain ⟨rfl, rfl⟩ | ⟨rfl, rfl⟩ | ⟨rfl, rfl⟩ := hentry <;> obtain rfl | rfl | rfl := hkeys <;>
      simp [Statement.nodesOf, Statement.nodes, Statement.nodesOfClauses] at hcall ⊢
  · intro h
    simp only [List.mem_cons, Prod.mk.injEq, List.not_mem_nil, or_false] at h
    obtain ⟨rfl, rfl⟩ | ⟨rfl, rfl⟩ | ⟨rfl, rfl⟩ | ⟨rfl, rfl⟩ := h <;>
      exact ⟨_, rfl, by simp [Statement.nodesOf, Statement.nodes, Statement.nodesOfClauses],
        by decide⟩

theorem recursion_echo :
    ∃ g, ofProgram echo = .ok g ∧ g.Components g.components ∧
      (∃ finding ∈ g.recursion, finding.concerns "main" = true) ∧
      (∃ cycle : List String, g.recursion.filter (·.concerns "ping") = [.recursion cycle] ∧
        cycle.Pairwise (· < ·) ∧ ∀ h, h ∈ cycle ↔ h = "ping" ∨ h = "pong") ∧
      (g.recursion.map CallFinding.message).Pairwise (· ≤ ·) := by
  obtain ⟨g, hg⟩ : ∃ g, ofProgram echo = .ok g := ⟨_, rfl⟩
  obtain ⟨hconcerns, hcycle, _, ⟨hcomponents, _⟩, hmessages⟩ := recursion_exact hg
  have hping : TransGen echo.Calls "ping" "pong" := .single (calls_echo.mpr (by decide))
  have hpong : TransGen echo.Calls "pong" "ping" := .single (calls_echo.mpr (by decide))
  have hback {h : String} (hh : TransGen echo.Calls h "ping") : h = "ping" ∨ h = "pong" := by
    induction hh using TransGen.head_induction_on with
    | single hcall => exact .inr (by simpa using calls_echo.mp hcall)
    | head hcall _ ih =>
      have hcall := calls_echo.mp hcall
      obtain rfl | rfl := ih
      · exact .inr (by simpa using hcall)
      · exact .inl (by simpa using hcall)
  obtain ⟨cycle, hfilter, hsorted, hmem⟩ := hcycle "ping" (hping.trans hpong)
  refine ⟨g, hg, hcomponents, (hconcerns "main").mpr (.single (calls_echo.mpr (by decide))),
    ⟨cycle, hfilter, hsorted, fun h => ?_⟩, hmessages⟩
  rw [hmem]
  constructor
  · exact fun hh => hback hh.2
  · rintro (rfl | rfl)
    · exact ⟨hping.trans hpong, hping.trans hpong⟩
    · exact ⟨hping, hpong⟩

end CallGraph

end BlockRobot
