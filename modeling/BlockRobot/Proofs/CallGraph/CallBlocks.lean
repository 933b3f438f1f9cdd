import BlockRobot.Proofs.CallGraph.Chains
import BlockRobot.Proofs.Program.Places

/-!
# The call blocks of a program

The call graph has an edge for each call of a function that is defined, and an unresolved call for each
other one. Both lists are in the order in which a visit of the program meets the calls, and the path of
each entry leads to its call: `one_entry_per_call`.
-/

namespace BlockRobot

open BlockRobot.Path (Step)
open Statement (follow? nodesOf)

namespace Program

/-- A call: the number of its part, the number at which a visit of the part meets it, and the name that
it calls. -/
structure CallBlock where
  part : Nat
  number : Nat
  name : String
  deriving DecidableEq

def callBlock? (part : Nat) : Statement × Nat → Option CallBlock
  | (.call name, number) => some ⟨part, number, name⟩
  | _ => none

def Part.callBlocks (part : Part) (u : Nat) : List CallBlock :=
  (nodesOf part.body).zipIdx.filterMap (callBlock? u)

def callBlocks (p : Program) : List CallBlock :=
  p.parts.zipIdx.flatMap fun part => part.1.callBlocks part.2

def definedCalls (p : Program) : List CallBlock :=
  p.callBlocks.filter fun block => p.functions.contains block.name

def undefinedCalls (p : Program) : List CallBlock :=
  p.callBlocks.filter fun block => !p.functions.contains block.name

/-- The path leads from the body of the part to the call; `inLoop` says whether a loop is on the way. -/
def Part.Leads (part : Part) (path : Path) (inLoop : Bool) (block : CallBlock) : Prop :=
  path.root = part.root ∧ ∃ spot, follow? part.body path.steps = some spot ∧
    spot.statement = .call block.name ∧ spot.number = block.number ∧ spot.inLoop = inLoop

end Program

def CallNode.size : CallNode → Nat
  | .main => 0
  | .function _ size => size

def CallFinding.origin? : CallFinding → Option (String × String)
  | .unresolvedCall _ caller path => some (caller, path.render)
  | .recursion _ | .unusedFunction _ => none

namespace CallGraph

open Program (Part CallBlock)

variable {p : Program} {g : CallGraph} {u : Nat} {part : Part} {block : CallBlock}

structure IsEdge (p : Program) (e : CallEdge) (block : CallBlock) : Prop where
  caller : e.caller = block.part
  callee : indexIn p.functions.keys block.name = some e.callee
  leads : ∃ part, p.parts[block.part]? = some part ∧ part.Leads e.path e.inLoop block

def IsUnresolved (p : Program) (finding : CallFinding) (block : CallBlock) : Prop :=
  ∃ part path inLoop, p.parts[block.part]? = some part ∧ part.Leads path inLoop block ∧
    finding = .unresolvedCall block.name part.name path

/-! ## The calls of one part -/

structure Matches (part : Part) (u : Nat) (call : Path × Bool × String) (block : CallBlock) : Prop where
  home : block.part = u
  name : call.2.2 = block.name
  leads : part.Leads call.1 call.2.1 block

theorem forall₂_callsIn (part : Part) (u : Nat) :
    List.Forall₂ (Matches part u) (callsIn (.ofRoot part.root) part.body) (part.callBlocks u) := by
  refine List.rel_filterMap ?_ (Statement.forall₂_placesOf (.ofRoot part.root) false part.body)
  rintro place ⟨s, k⟩ ⟨rfl, steps, spot, hspot, rfl, rfl⟩
  cases hs : spot.statement with
  | call name =>
    simp only [Statement.Spot.place, Program.callBlock?, hs, Bool.false_or]
    exact .some ⟨rfl, rfl, rfl, spot, hspot, hs, rfl, rfl⟩
  | _ =>
    simp only [Statement.Spot.place, Program.callBlock?, hs]
    exact .none

theorem isSome_indexIn (name : String) :
    (indexIn p.functions.keys name).isSome = p.functions.contains name := by
  rw [Bool.eq_iff_iff, Option.isSome_iff_exists, exists_indexIn_iff, Table.contains_iff_mem_keys]

theorem forall₂_edges (hpart : p.parts[u]? = some part) :
    List.Forall₂ (IsEdge p) (entriesOf p.functions.keys part u).1
      ((part.callBlocks u).filter fun block => p.functions.contains block.name) := by
  rw [← List.filterMap_eq_filter]
  refine List.rel_filterMap ?_ (forall₂_callsIn part u)
  rintro ⟨path, inLoop, name⟩ block ⟨rfl, rfl, hleads⟩
  simp only [Option.guard, ← isSome_indexIn]
  cases hcallee : indexIn p.functions.keys block.name with
  | none => exact .none
  | some callee => exact .some ⟨rfl, hcallee, part, hpart, hleads⟩

theorem forall₂_unresolved (hpart : p.parts[u]? = some part) :
    List.Forall₂ (IsUnresolved p) (entriesOf p.functions.keys part u).2
      ((part.callBlocks u).filter fun block => !p.functions.contains block.name) := by
  rw [← List.filterMap_eq_filter]
  refine List.rel_filterMap ?_ (forall₂_callsIn part u)
  rintro ⟨path, inLoop, name⟩ block ⟨rfl, rfl, hleads⟩
  simp only [Option.guard, ← isSome_indexIn]
  cases hcallee : indexIn p.functions.keys block.name with
  | none => exact .some ⟨part, path, inLoop, hpart, hleads, rfl⟩
  | some callee => exact .none

/-! ## The calls of all parts -/

theorem forall₂_flatMap_parts {α : Type} {R : α → CallBlock → Prop} {f : Part × Nat → List α}
    {keep : CallBlock → Bool}
    (h : ∀ part u, p.parts[u]? = some part →
      List.Forall₂ R (f (part, u)) ((part.callBlocks u).filter keep)) :
    List.Forall₂ R (p.parts.zipIdx.flatMap f) (p.callBlocks.filter keep) := by
  rw [Program.callBlocks, List.filter_flatMap]
  have hsame : List.Forall₂ (fun x y => x = y ∧ p.parts[x.2]? = some x.1)
      p.parts.zipIdx p.parts.zipIdx :=
    List.forall₂_same.mpr fun x hx => ⟨rfl, List.mem_zipIdx_iff_getElem?.mp hx⟩
  refine List.rel_flatMap hsame ?_
  rintro ⟨part, u⟩ _ ⟨rfl, hpart⟩
  exact h part u hpart

theorem forall₂_definedCalls (hg : ofProgram p = .ok g) :
    List.Forall₂ (IsEdge p) g.edges p.definedCalls := by
  rw [(ofProgram_eq hg).2.1]
  exact forall₂_flatMap_parts fun _ _ => forall₂_edges

theorem forall₂_undefinedCalls (hg : ofProgram p = .ok g) :
    List.Forall₂ (IsUnresolved p) g.unresolved p.undefinedCalls := by
  rw [(ofProgram_eq hg).2.2]
  exact forall₂_flatMap_parts fun _ _ => forall₂_unresolved

/-! ## One entry for each call -/

theorem pairwise_zipIdx {α : Type} (xs : List α) : xs.zipIdx.Pairwise fun x y => x.2 ≠ y.2 := by
  have hnodup : (xs.zipIdx.map Prod.snd).Nodup := by
    rw [List.zipIdx_map_snd]
    exact List.nodup_range'
  exact List.pairwise_map.mp hnodup

theorem eq_of_callBlock? {x : Statement × Nat} (h : Program.callBlock? u x = some block) :
    x.1 = .call block.name ∧ x.2 = block.number ∧ u = block.part := by
  unfold Program.callBlock? at h
  split at h
  · cases h
    exact ⟨rfl, rfl, rfl⟩
  · cases h

theorem mem_callBlocks_of_leads {path : Path} {inLoop : Bool} (hpart : p.parts[block.part]? = some part)
    (h : part.Leads path inLoop block) : block ∈ p.callBlocks := by
  obtain ⟨-, spot, hspot, hcall, hnumber, -⟩ := h
  have hnode : (.call block.name, block.number) ∈ (nodesOf part.body).zipIdx := by
    rw [List.mk_mem_zipIdx_iff_getElem?, ← hcall, ← hnumber]
    exact Statement.getElem?_of_follow? part.body path.steps hspot
  have hhome : (part, block.part) ∈ p.parts.zipIdx := List.mk_mem_zipIdx_iff_getElem?.mpr hpart
  exact List.mem_flatMap.mpr ⟨_, hhome, List.mem_filterMap.mpr ⟨_, hnode, rfl⟩⟩

theorem part_of_mem_callBlocks (h : block ∈ part.callBlocks u) : u = block.part := by
  obtain ⟨x, _, hblock⟩ := List.mem_filterMap.mp h
  exact (eq_of_callBlock? hblock).2.2

theorem nodup_callBlocks (p : Program) : p.callBlocks.Nodup := by
  refine List.pairwise_flatMap.mpr ⟨fun part _ => ?_, ?_⟩
  · refine List.pairwise_filterMap.mpr ((pairwise_zipIdx _).imp ?_)
    intro x y hne block hx block' hy heq
    rw [(eq_of_callBlock? hx).2.1, (eq_of_callBlock? hy).2.1, heq] at hne
    exact hne rfl
  · refine (pairwise_zipIdx p.parts).imp ?_
    intro x y hne block hx block' hy heq
    rw [part_of_mem_callBlocks hx, part_of_mem_callBlocks hy, heq] at hne
    exact hne rfl

theorem exists_entry_of_part {i : Nat} (hpart : p.parts[i + 1]? = some part) :
    ∃ e, p.functions.entries[i]? = some e ∧ part = Part.ofEntry e := by
  simp only [Program.parts, List.getElem?_cons_succ, List.getElem?_map,
    Option.map_eq_some_iff] at hpart
  obtain ⟨e, he, rfl⟩ := hpart
  exact ⟨e, he, rfl⟩

theorem nameOf_part (hg : ofProgram p = .ok g) (hpart : p.parts[u]? = some part) :
    g.nameOf u = part.name := by
  rw [nameOf, nodes_ofProgram hg]
  cases u with
  | zero =>
    cases hpart
    rfl
  | succ i =>
    obtain ⟨e, he, rfl⟩ := exists_entry_of_part hpart
    simp [he, Part.ofEntry, CallNode.name]

theorem indexIn_part {i : Nat} (hpart : p.parts[i + 1]? = some part) :
    indexIn p.functions.keys part.name = some (i + 1) := by
  obtain ⟨e, he, rfl⟩ := exists_entry_of_part hpart
  have hnodup : p.functions.keys.Nodup := p.functions.nodup
  rw [indexIn_succ_iff hnodup]
  simp [Table.keys, Entries.keys, he, Part.ofEntry]

theorem actions_append_ne {i : Nat} (hpart : p.parts[i + 1]? = some part) (text text' : String) :
    "actions" ++ text ≠ part.root ++ text' := by
  obtain ⟨e, _, rfl⟩ := exists_entry_of_part hpart
  rw [ne_eq, ← String.toList_inj]
  simp [Part.ofEntry]

/-- A function can have the name of the node of the actions, but its paths have another root. -/
theorem part_unique {v : Nat} {part' : Part} {text text' : String} (hu : p.parts[u]? = some part)
    (hv : p.parts[v]? = some part') (hname : part.name = part'.name)
    (htext : part.root ++ text = part'.root ++ text') : u = v := by
  cases u with
  | zero =>
    cases hu
    cases v with
    | zero => rfl
    | succ j => exact absurd htext (actions_append_ne hv text text')
  | succ i =>
    cases v with
    | zero =>
      cases hv
      exact absurd htext.symm (actions_append_ne hu text' text)
    | succ j =>
      have hi := indexIn_part hu
      rw [hname, indexIn_part hv] at hi
      exact (Option.some.inj hi).symm

def HasOrigin (p : Program) (origin : String × String) (block : CallBlock) : Prop :=
  ∃ part path inLoop, p.parts[block.part]? = some part ∧ part.Leads path inLoop block ∧
    origin = (part.name, path.render)

theorem HasOrigin.unique {origin : String × String} {block' : CallBlock}
    (h : HasOrigin p origin block) (h' : HasOrigin p origin block') : block = block' := by
  obtain ⟨part, ⟨root, steps⟩, inLoop, hpart, ⟨rfl, spot, hspot, hcall, hnumber, _⟩, rfl⟩ := h
  obtain ⟨part', ⟨root', steps'⟩, inLoop', hpart', ⟨rfl, spot', hspot', hcall', hnumber', _⟩, heq⟩ := h'
  obtain ⟨hname, htext⟩ := Prod.mk.inj heq
  have hu : block.part = block'.part := part_unique hpart hpart' hname htext
  obtain rfl : part = part' := Option.some.inj (hpart.symm.trans (hu ▸ hpart'))
  have hsteps := (String.append_right_inj part.root).mp htext
  obtain ⟨_, rfl⟩ := Statement.follow?_unique hspot hspot' hsteps
  obtain ⟨u, k, name⟩ := block
  obtain ⟨u', k', name'⟩ := block'
  cases hu
  cases hcall.symm.trans hcall'
  cases hnumber.symm.trans hnumber'
  rfl

theorem nodup_of_forall₂ {α β : Type} {R : α → β → Prop} {xs : List α} {ys : List β}
    (hunique : ∀ x y y', R x y → R x y' → y = y') (h : List.Forall₂ R xs ys) (hys : ys.Nodup) :
    xs.Nodup := by
  induction h with
  | nil => exact List.nodup_nil
  | @cons x y xs ys hxy hrest ih =>
    obtain ⟨hy, hys⟩ := List.nodup_cons.mp hys
    refine List.nodup_cons.mpr ⟨fun hx => ?_, ih hys⟩
    obtain ⟨i, hi, rfl⟩ := List.getElem_of_mem hx
    have hi' : i < ys.length := hrest.length_eq ▸ hi
    rw [hunique _ _ _ hxy (hrest.get hi hi')] at hy
    exact hy (List.getElem_mem hi')

/-- The callers and the paths of all entries, as they are written. -/
def origins (g : CallGraph) : List (String × String) :=
  g.edges.map (fun e => (g.nameOf e.caller, e.path.render)) ++
    g.unresolved.filterMap CallFinding.origin?

theorem IsEdge.hasOrigin {e : CallEdge} (hg : ofProgram p = .ok g) (h : IsEdge p e block) :
    HasOrigin p (g.nameOf e.caller, e.path.render) block := by
  obtain ⟨part, hpart, hleads⟩ := h.leads
  exact ⟨part, e.path, e.inLoop, hpart, hleads, by rw [h.caller, nameOf_part hg hpart]⟩

theorem nodup_origins (hg : ofProgram p = .ok g) : g.origins.Nodup := by
  have hedges : List.Forall₂ (HasOrigin p) (g.edges.map fun e => (g.nameOf e.caller, e.path.render))
      p.definedCalls :=
    List.forall₂_map_left_iff.mpr ((forall₂_definedCalls hg).imp fun _ _ h => h.hasOrigin hg)
  have hunresolved : List.Forall₂ (HasOrigin p) (g.unresolved.filterMap CallFinding.origin?)
      p.undefinedCalls := by
    rw [← List.filterMap_some (l := p.undefinedCalls)]
    refine List.rel_filterMap ?_ (forall₂_undefinedCalls hg)
    rintro _ block ⟨part, path, inLoop, hpart, hleads, rfl⟩
    exact .some ⟨part, path, inLoop, hpart, hleads, rfl⟩
  have hnodup : (p.definedCalls ++ p.undefinedCalls).Nodup :=
    (List.filter_append_perm _ p.callBlocks).nodup_iff.mpr (nodup_callBlocks p)
  have hentries : List.Forall₂ (HasOrigin p) g.origins (p.definedCalls ++ p.undefinedCalls) :=
    List.rel_append hedges hunresolved
  exact nodup_of_forall₂ (fun _ _ _ h h' => h.unique h') hentries hnodup

/-- The edges are the calls of functions that are defined, and the unresolved calls are the others, both
in the order of a visit. No call that a path leads to is missing, and two entries with one caller have
different paths. -/
theorem one_entry_per_call (hg : ofProgram p = .ok g) :
    List.Forall₂ (IsEdge p) g.edges p.definedCalls ∧
    List.Forall₂ (IsUnresolved p) g.unresolved p.undefinedCalls ∧
    (∀ block part path inLoop, p.parts[block.part]? = some part → part.Leads path inLoop block →
      block ∈ p.definedCalls ∨ block ∈ p.undefinedCalls) ∧
    g.origins.Nodup ∧
    (∀ i, g.nodes[i + 1]? = p.functions.entries[i]?.map fun e =>
      .function e.1 (nodesOf e.2.body).length) ∧
    sumOver CallNode.size g.nodes + (nodesOf p.actions).length = p.nodeCount := by
  refine ⟨forall₂_definedCalls hg, forall₂_undefinedCalls hg, fun block part path inLoop hpart hleads => ?_,
    nodup_origins hg, fun i => ?_, ?_⟩
  · have hperm := List.filter_append_perm (fun b : CallBlock => p.functions.contains b.name) p.callBlocks
    exact List.mem_append.mp (hperm.mem_iff.mpr (mem_callBlocks_of_leads hpart hleads))
  · simp [nodes_ofProgram hg]
  · simp only [nodes_ofProgram hg, sumOver, sumOver_map, Program.nodeCount, Program.bodies,
      CallNode.size]
    omega

/-- A call in a loop in an else-if, one of a function that is not there, and a function that has the name
of the node of the actions. -/
def ladder : Program :=
  ⟨"1", none, ⟨[("climb", ⟨"climb", [.putBox (.number 1)]⟩),
      ("main", ⟨"main", [.turnLeft, .call "climb"]⟩)], by decide⟩,
    [.ifElse (.sensor "isGreen" true) []
      [(.sensor "isRed" true, []), (.sensor "isBlue" true,
        [.whileLoop (.sensor "hasItem" true)
          [.ifElse (.sensor "isRed" true) [.call "climb"] [] [.call "fall"]]])]
      [.call "main"]], 0, .empty, []⟩

def pathOfFall : Path :=
  ⟨"actions", [.index 0, .field "elseIf", .index 1, .field "then", .index 0, .field "body", .index 0,
    .field "else", .index 0]⟩

theorem one_entry_per_call_ladder :
    ∃ g, ofProgram ladder = .ok g ∧
      g.edges.map (fun e => (e.label, e.path.render)) =
        [("calls_in_loop", "actions[0].elseIf[1].then[0].body[0].then[0]"),
          ("calls", "actions[0].else[0]"), ("calls", "functions[main].body[1]")] ∧
      List.Forall₂ (IsEdge ladder) g.edges [⟨0, 3, "climb"⟩, ⟨0, 5, "main"⟩, ⟨2, 1, "climb"⟩] ∧
      List.Forall₂ (IsUnresolved ladder) g.unresolved [⟨0, 4, "fall"⟩] ∧
      Part.Leads ⟨"main", "actions", ladder.actions⟩ pathOfFall true ⟨0, 4, "fall"⟩ ∧
      (⟨0, 4, "fall"⟩ ∈ ladder.definedCalls ∨ ⟨0, 4, "fall"⟩ ∈ ladder.undefinedCalls) ∧ g.origins.Nodup ∧
      sumOver CallNode.size g.nodes + 6 = ladder.nodeCount := by
  obtain ⟨g, hg⟩ : ∃ g, ofProgram ladder = .ok g := ⟨_, rfl⟩
  have htexts : g.edges.map (fun e => (e.label, e.path.render)) =
      [("calls_in_loop", "actions[0].elseIf[1].then[0].body[0].then[0]"),
        ("calls", "actions[0].else[0]"), ("calls", "functions[main].body[1]")] := by
    cases hg
    decide +kernel
  have hleads : Part.Leads ⟨"main", "actions", ladder.actions⟩ pathOfFall true ⟨0, 4, "fall"⟩ :=
    ⟨rfl, _, rfl, rfl, rfl, rfl⟩
  obtain ⟨hedges, hunresolved, hcalls, hnodup, _, hsizes⟩ := one_entry_per_call hg
  have hdefined : ladder.definedCalls = [⟨0, 3, "climb"⟩, ⟨0, 5, "main"⟩, ⟨2, 1, "climb"⟩] := by
    decide +kernel
  have hundefined : ladder.undefinedCalls = [⟨0, 4, "fall"⟩] := by decide +kernel
  rw [hdefined] at hedges
  rw [hundefined] at hunresolved
  exact ⟨g, hg, htexts, hedges, hunresolved, hleads, hcalls _ _ _ _ rfl hleads, hnodup, hsizes⟩

end CallGraph

end BlockRobot
