import BlockRobot.Proofs.CallGraph.Chains

/-!
# Searching the call graph

A search takes the nodes off a list, in any order, and adds those that a new node calls. Each node that it
takes lowers the work that is left by exactly one (`Search.Takes.work`), so every search ends, and it ends
with the nodes that chains of calls reach (`Search.Explored.mem_found_iff`). The functions among them are
the reachable ones, and the others are unused: `reachability_exact`.
-/

namespace BlockRobot

namespace CallGraph

structure Search where
  todo : List Nat
  found : List Nat

namespace Search

variable {g : CallGraph} {s t r : Search} {n : Nat}

/-- The search takes one node, from any place of its list. If the node is new, the nodes that it calls are
added to the list, once for each call. -/
inductive Takes (g : CallGraph) : Search → Search → Prop
  | new {todo found rest : List Nat} {v : Nat} (taken : todo.Perm (v :: rest)) (new : v ∉ found) :
      Takes g ⟨todo, found⟩ ⟨g.calleesOf v ++ rest, v :: found⟩
  | known {todo found rest : List Nat} {v : Nat} (taken : todo.Perm (v :: rest)) (known : v ∈ found) :
      Takes g ⟨todo, found⟩ ⟨rest, found⟩

inductive TakesMany (g : CallGraph) : Nat → Search → Search → Prop
  | none {s : Search} : TakesMany g 0 s s
  | next {n : Nat} {s t r : Search} (first : Takes g s t) (rest : TakesMany g n t r) :
      TakesMany g (n + 1) s r

def start : Search := ⟨[0], []⟩

theorem exists_takes (h : s.todo ≠ []) : ∃ t, Takes g s t := by
  obtain ⟨todo, found⟩ := s
  obtain ⟨v, rest, rfl⟩ := List.exists_cons_of_ne_nil h
  by_cases hv : v ∈ found
  · exact ⟨_, .known (.refl _) hv⟩
  · exact ⟨_, .new (.refl _) hv⟩

/-! ## Every search ends -/

def callsLeft (g : CallGraph) (found : List Nat) : List CallEdge :=
  g.edges.filter fun e => !found.contains e.caller

def work (g : CallGraph) (s : Search) : Nat := s.todo.length + (callsLeft g s.found).length

theorem length_callsLeft_cons {found : List Nat} {v : Nat} (hv : v ∉ found) :
    (callsLeft g (v :: found)).length + (g.calleesOf v).length = (callsLeft g found).length := by
  have hof : (callsLeft g found).filter (fun e => e.caller == v) = g.edges.filter (·.caller == v) := by
    rw [callsLeft, List.filter_filter]
    refine List.filter_congr fun e _ => ?_
    by_cases he : e.caller = v <;> simp [he, hv]
  have hothers : (callsLeft g found).filter (fun e => !(e.caller == v)) = callsLeft g (v :: found) := by
    rw [callsLeft, callsLeft, List.filter_filter]
    refine List.filter_congr fun e _ => ?_
    by_cases he : e.caller = v <;> simp [he]
  rw [(callsLeft g found).length_eq_length_filter_add (·.caller == v), hof, hothers, calleesOf, outgoing,
    List.length_map, List.length_reverse, Nat.add_comm]

theorem Takes.work (h : Takes g s t) : t.work g + 1 = s.work g := by
  cases h with
  | new taken new =>
    have hcalls := length_callsLeft_cons (g := g) new
    simp only [Search.work, taken.length_eq, List.length_append, List.length_cons]
    omega
  | known taken known =>
    simp only [Search.work, taken.length_eq, List.length_cons]
    omega

theorem TakesMany.work (h : TakesMany g n s t) : t.work g + n = s.work g := by
  induction h with
  | none => rfl
  | next first _ ih =>
    rw [← first.work, ← ih]
    omega

theorem work_start_le : start.work g ≤ 1 + g.edges.length :=
  Nat.add_le_add_left (List.length_filter_le _ _) 1

/-! ## What a search finds -/

/-- What holds of a search from the actions, however far it is: it has to do with reached nodes only, and
what the nodes found so far call is not lost. -/
structure Explored (g : CallGraph) (s : Search) : Prop where
  reached : ∀ v, v ∈ s.todo ∨ v ∈ s.found → g.Reached v
  main : 0 ∈ s.todo ∨ 0 ∈ s.found
  covered : g.Covered s.todo s.found

theorem explored_start : Explored g start where
  reached v hv := by
    obtain rfl : v = 0 := by simpa [start] using hv
    exact .refl
  main := .inl (List.mem_singleton.mpr rfl)
  covered u hu := nomatch hu

theorem Explored.takes (hs : Explored g s) (h : Takes g s t) : Explored g t := by
  cases h with
  | @new todo found rest v taken new =>
    -- A node on the old list is the one that was taken, or is on the new list.
    have hkept {u : Nat} (hu : u ∈ todo) : u ∈ v :: found ∨ u ∈ g.calleesOf v ++ rest := by
      rcases List.mem_cons.mp (taken.mem_iff.mp hu) with rfl | hu
      · exact .inl List.mem_cons_self
      · exact .inr (List.mem_append_right _ hu)
    have hv : g.Reached v := hs.reached v (.inl (taken.mem_iff.mpr List.mem_cons_self))
    refine ⟨fun u hu => ?_, ?_, fun u hu w huw => ?_⟩
    · rcases hu with hu | hu
      · rcases List.mem_append.mp hu with hu | hu
        · exact hv.tail (mem_calleesOf.mp hu)
        · exact hs.reached u (.inl (taken.mem_iff.mpr (List.mem_cons_of_mem v hu)))
      · rcases List.mem_cons.mp hu with rfl | hu
        · exact hv
        · exact hs.reached u (.inr hu)
    · rcases hs.main with hmain | hmain
      · exact (hkept hmain).symm
      · exact .inr (List.mem_cons_of_mem v hmain)
    · rcases List.mem_cons.mp hu with rfl | hu
      · exact .inr (List.mem_append_left rest (mem_calleesOf.mpr huw))
      · rcases hs.covered u hu w huw with hw | hw
        · exact .inl (List.mem_cons_of_mem v hw)
        · exact hkept hw
  | @known todo found rest v taken known =>
    have hkept {u : Nat} (hu : u ∈ todo) : u ∈ found ∨ u ∈ rest := by
      rcases List.mem_cons.mp (taken.mem_iff.mp hu) with rfl | hu
      · exact .inl known
      · exact .inr hu
    refine ⟨fun u hu => ?_, ?_, fun u hu w huw => ?_⟩
    · exact hs.reached u (hu.imp_left fun hu => taken.mem_iff.mpr (List.mem_cons_of_mem v hu))
    · exact hs.main.elim (fun hmain => (hkept hmain).symm) .inr
    · exact (hs.covered u hu w huw).elim .inl hkept

theorem Explored.takesMany (hs : Explored g s) (h : TakesMany g n s t) : Explored g t := by
  induction h with
  | none => exact hs
  | next first _ ih => exact ih (hs.takes first)

theorem Explored.mem_found_iff (hs : Explored g s) (hdone : s.todo = []) {v : Nat} :
    v ∈ s.found ↔ g.Reached v := by
  refine ⟨fun hv => hs.reached v (.inr hv), fun hv => ?_⟩
  have hnone (u : Nat) : u ∉ s.todo := by simp [hdone]
  induction hv with
  | refl => exact hs.main.resolve_left (hnone 0)
  | tail _ hcall ih => exact (hs.covered _ ih _ hcall).resolve_right (hnone _)

/-- `explore` is a search that takes the first node of its list each time. -/
theorem takesMany_explore (hg : g.InRange) {todo found : List Nat}
    (htodo : ∀ v ∈ todo, v < g.nodes.length) :
    ∃ n, TakesMany g n ⟨todo, found⟩ ⟨[], g.explore todo found⟩ := by
  fun_induction explore g todo found with
  | case1 found => exact ⟨0, .none⟩
  | case2 found v todo hv ih =>
    obtain ⟨_, hrest⟩ := List.forall_mem_cons.mp htodo
    obtain ⟨n, hn⟩ := ih fun u hu => by
      rcases List.mem_append.mp hu with hu | hu
      · exact hg v u (mem_calleesOf.mp hu)
      · exact hrest u hu
    exact ⟨n + 1, .next (.new (.refl _) (by simpa using hv.2)) hn⟩
  | case3 found v todo hv ih =>
    obtain ⟨hlt, hrest⟩ := List.forall_mem_cons.mp htodo
    obtain ⟨n, hn⟩ := ih hrest
    exact ⟨n + 1, .next (.known (.refl _) (by simpa [hlt] using hv)) hn⟩

end Search

variable {p : Program} {g : CallGraph}

/-! ## Reachable and unused functions -/

theorem pairwise_lt_namesOf (hg : ofProgram p = .ok g) (q : Nat → Bool) :
    (sortNames ((g.functionNodes.filter q).map g.nameOf)).Pairwise (· < ·) :=
  pairwise_lt_sortNames (nodup_names hg (g.nodup_functionNodes.filter q) fun _ hv =>
    List.mem_of_mem_filter hv)

theorem mem_reachableFunctions_iff (hg : ofProgram p = .ok g) {h : String} :
    h ∈ g.reachableFunctions ↔ p.Uses h := by
  rw [mem_reachableFunctions hg]
  constructor
  · rintro ⟨v, hv, hreached⟩
    exact (reached_iff hg hv).mp hreached
  · intro huses
    obtain ⟨v, hv⟩ := exists_indexIn_iff.mpr huses.mem_keys
    exact ⟨v, hv, (reached_iff hg hv).mpr huses⟩

theorem mem_unusedFunctions_iff (hg : ofProgram p = .ok g) {h : String} :
    .unusedFunction h ∈ g.unusedFunctions ↔ h ∈ p.functions.keys ∧ ¬ p.Uses h := by
  rw [mem_unusedFunctions hg]
  constructor
  · rintro ⟨v, hv, hreached⟩
    exact ⟨exists_indexIn_iff.mp ⟨v, hv⟩, fun huses => hreached ((reached_iff hg hv).mpr huses)⟩
  · rintro ⟨hmem, huses⟩
    obtain ⟨v, hv⟩ := exists_indexIn_iff.mpr hmem
    exact ⟨v, hv, fun hreached => huses ((reached_iff hg hv).mp hreached)⟩

/-- The search for what the actions use ends, in whichever order it takes the nodes, and it always finds
the same ones. The functions among them are those to which a chain of calls leads from the actions, and the
unused functions are all others; both are listed in order and without repetition. -/
theorem reachability_exact (hg : ofProgram p = .ok g) :
    (∀ n s, Search.TakesMany g n .start s → n ≤ 1 + g.edges.length) ∧
      (∃ n, Search.TakesMany g n .start ⟨[], g.reachableFrom 0⟩) ∧
      (∀ n s, Search.TakesMany g n .start s → (∀ t, ¬ Search.Takes g s t) →
        ∀ v, v ∈ s.found ↔ v ∈ g.reachableFrom 0) ∧
      g.reachableFunctions.Pairwise (· < ·) ∧ (∀ h, h ∈ g.reachableFunctions ↔ p.Uses h) ∧
      ∃ unused : List String, g.unusedFunctions = unused.map .unusedFunction ∧
        unused.Pairwise (· < ·) ∧ ∀ h, h ∈ unused ↔ h ∈ p.functions.keys ∧ ¬ p.Uses h := by
  refine ⟨fun n s hs => ?_, ?_, fun n s hs hstuck v => ?_, pairwise_lt_namesOf hg _,
    fun h => mem_reachableFunctions_iff hg, _, rfl, pairwise_lt_namesOf hg _, fun h => ?_⟩
  · calc n ≤ s.work g + n := Nat.le_add_left n _
      _ = Search.start.work g := hs.work
      _ ≤ 1 + g.edges.length := Search.work_start_le
  · exact Search.takesMany_explore (inRange_ofProgram hg) (by simp [nodes_ofProgram hg])
  · have hdone : s.todo = [] := by
      by_contra htodo
      obtain ⟨t, ht⟩ := Search.exists_takes (g := g) htodo
      exact hstuck t ht
    rw [(Search.explored_start.takesMany hs).mem_found_iff hdone, mem_reachableFrom_main hg]
  · rw [← mem_unusedFunctions_iff hg, unusedFunctions, List.mem_map]
    simp only [CallFinding.unusedFunction.injEq, exists_eq_right]

/-- Two functions that call each other, the second in two places, and two that are never called from the
actions. -/
def detour : Program :=
  ⟨"1", none, ⟨[("back", ⟨"back", [.call "there", .call "away"]⟩),
      ("idle", ⟨"idle", [.call "there", .call "idler"]⟩), ("idler", ⟨"idler", []⟩),
      ("there", ⟨"there", [.ifElse (.sensor "hasItem" true) [.call "back"]
        [(.sensor "isGreen" true, [.call "back"])] []]⟩)], by decide⟩,
    [.turnLeft, .whileLoop (.sensor "hasItem" false) [.call "there"]], 0, .empty, []⟩

theorem reachability_detour :
    ∃ g, ofProgram detour = .ok g ∧ g.edges.length = 6 ∧
      (∀ n s, Search.TakesMany g n .start s → n ≤ 7) ∧
      "back" ∈ g.reachableFunctions ∧ "idler" ∉ g.reachableFunctions ∧
      g.reachableFunctions.Pairwise (· < ·) ∧
      ∃ unused : List String, g.unusedFunctions = unused.map .unusedFunction ∧ "idler" ∈ unused := by
  obtain ⟨g, hg⟩ : ∃ g, ofProgram detour = .ok g := ⟨_, rfl⟩
  have hedges : g.edges.length = 6 := by
    cases hg
    decide +kernel
  have hback : detour.Calls "there" "back" :=
    ⟨_, rfl, by simp [Statement.nodesOf, Statement.nodes, Statement.nodesOfClauses], by decide⟩
  have huses {h : String} (hh : detour.Uses h) : h = "there" ∨ h = "back" := by
    obtain ⟨f, hcall, hmem, hchain⟩ := hh
    induction hchain with
    | refl => exact .inl (by simpa [detour, Statement.nodesOf, Statement.nodes] using hcall)
    | tail _ hcall ih =>
      obtain ⟨function, hfunction, hcall, hmem⟩ := hcall
      obtain rfl | rfl := ih <;> cases hfunction
      · exact .inr (by simpa [Statement.nodesOf, Statement.nodes, Statement.nodesOfClauses] using hcall)
      · simp only [Statement.nodesOf, Statement.nodes, List.append_nil, List.cons_append,
          List.nil_append, List.mem_cons, Statement.call.injEq, List.not_mem_nil, or_false] at hcall
        obtain rfl | rfl := hcall
        · exact .inl rfl
        · exact absurd hmem (by decide)
  have hidler : ¬ detour.Uses "idler" := fun h => absurd (huses h) (by decide)
  obtain ⟨hbound, _, _, hsorted, hreachable, unused, hunused, _, hmem⟩ := reachability_exact hg
  refine ⟨g, hg, hedges, fun n s hs => (hbound n s hs).trans (by omega), (hreachable _).mpr ?_,
    fun h => hidler ((hreachable _).mp h), hsorted, unused, hunused,
    (hmem _).mpr ⟨by decide, hidler⟩⟩
  exact ⟨"there", by simp [detour, Statement.nodesOf, Statement.nodes], by decide, .single hback⟩

end CallGraph

end BlockRobot
