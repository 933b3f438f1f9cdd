import BlockRobot.Proofs.CallGraph.Reachability
import BlockRobot.Proofs.Program.Nodes
import Mathlib.Data.Finset.Card
import Mathlib.Data.Finset.Range

/-!
# The calls of a program

The node `u` of the call graph stands for the body number `u` of the program, and it has a call of
every function that a statement of this body calls at any depth: `calls_iff`. Without recursion the
nodes have ranks that go down along calls (`rank_lt`).
-/

namespace BlockRobot

namespace Program

/-- A list of statements with a node in the call graph: the name of the node, and the root of its paths. -/
structure Part where
  name : String
  root : String
  body : List Statement

def Part.ofEntry (e : String × Function) : Part := ⟨e.1, "functions[" ++ e.1 ++ "].body", e.2.body⟩

def parts (p : Program) : List Part :=
  ⟨"main", "actions", p.actions⟩ :: p.functions.entries.map Part.ofEntry

theorem bodies_eq (p : Program) : p.bodies = p.parts.map Part.body := by
  simp only [bodies, parts, List.map_cons, List.map_map]
  rfl

end Program

namespace CallGraph

open Program (Part)

variable {p : Program} {g : CallGraph} {u v : Nat} {name : String}

/-! ## Edges and calls -/

theorem exists_mem_callsIn {path : Path} {body : List Statement} :
    (∃ c ∈ callsIn path body, c.2.2 = name) ↔ .call name ∈ Statement.nodesOf body := by
  rw [← Statement.statements_placesOf path 0 false body]
  simp only [callsIn, List.mem_filterMap, List.mem_map]
  constructor
  · rintro ⟨c, ⟨place, hplace, hc⟩, rfl⟩
    refine ⟨place, hplace, ?_⟩
    split at hc
    · next hs => cases hc; exact hs
    · cases hc
  · rintro ⟨place, hplace, hs⟩
    exact ⟨_, ⟨place, hplace, by rw [hs]⟩, rfl⟩

theorem mem_classify {names : List String} {caller : Nat} {callerName : String}
    {calls : List (Path × Bool × String)} :
    (∃ e ∈ (classify names caller callerName calls).1, e.caller = u ∧ e.callee = v) ↔
      caller = u ∧ ∃ c ∈ calls, indexIn names c.2.2 = some v := by
  simp only [classify, List.mem_filterMap, Option.map_eq_some_iff]
  constructor
  · rintro ⟨e, ⟨c, hc, callee, hcallee, rfl⟩, rfl, rfl⟩
    exact ⟨rfl, c, hc, hcallee⟩
  · rintro ⟨rfl, c, hc, hcallee⟩
    exact ⟨_, ⟨c, hc, v, hcallee, rfl⟩, rfl, rfl⟩

/-- What the graph has on the calls of a part: its edges and its unresolved calls. -/
def entriesOf (names : List String) (part : Part) (u : Nat) : List CallEdge × List CallFinding :=
  classify names u part.name (callsIn (.ofRoot part.root) part.body)

theorem mem_entriesOf {names : List String} {part : Part} {w : Nat} :
    (∃ e ∈ (entriesOf names part w).1, e.caller = u ∧ e.callee = v) ↔
      w = u ∧ ∃ name, .call name ∈ Statement.nodesOf part.body ∧ indexIn names name = some v := by
  rw [entriesOf, mem_classify]
  refine and_congr_right fun _ => ⟨?_, ?_⟩
  · rintro ⟨c, hc, hindex⟩
    exact ⟨c.2.2, exists_mem_callsIn.mp ⟨c, hc, rfl⟩, hindex⟩
  · rintro ⟨name, hcall, hindex⟩
    obtain ⟨c, hc, rfl⟩ := exists_mem_callsIn.mpr hcall
    exact ⟨c, hc, hindex⟩

theorem callers_eq (index : Nat) (entries : Entries Function) :
    callers index entries = ((entries.map Part.ofEntry).zipIdx index).map fun part =>
      (part.2, part.1.name, callsIn (.ofRoot part.1.root) part.1.body) := by
  induction entries generalizing index with
  | nil => rfl
  | cons e rest ih =>
    rw [callers, ih]
    rfl

theorem ofProgram_eq (hg : ofProgram p = .ok g) :
    g.nodes.length = p.bodies.length ∧
      g.edges = p.parts.zipIdx.flatMap (fun x => (entriesOf p.functions.keys x.1 x.2).1) ∧
      g.unresolved = p.parts.zipIdx.flatMap (fun x => (entriesOf p.functions.keys x.1 x.2).2) := by
  unfold ofProgram at hg
  split at hg
  · cases hg
  · cases hg
    refine ⟨by simp [Program.bodies], ?_, ?_⟩ <;>
    · simp only [callers_eq, List.flatMap_cons, List.flatMap_map, List.map_cons, List.map_map,
        Program.parts, List.zipIdx_cons]
      rfl

theorem bodies_succ {i : Nat} :
    p.bodies[i + 1]? = p.functions.entries[i]?.map fun e => e.2.body := by
  simp [Program.bodies]

theorem calls_iff (hg : ofProgram p = .ok g) :
    g.Calls u v ↔ ∃ body name, p.bodies[u]? = some body ∧ .call name ∈ Statement.nodesOf body ∧
      indexIn p.functions.keys name = some v := by
  simp only [Calls, (ofProgram_eq hg).2.1, List.mem_flatMap, Program.bodies_eq, List.getElem?_map,
    Option.map_eq_some_iff]
  constructor
  · rintro ⟨e, ⟨⟨part, w⟩, hpart, he⟩, hends⟩
    obtain ⟨rfl, name, hcall, hindex⟩ := mem_entriesOf.mp ⟨e, he, hends⟩
    exact ⟨part.body, name, ⟨part, List.mem_zipIdx_iff_getElem?.mp hpart, rfl⟩, hcall, hindex⟩
  · rintro ⟨_, name, ⟨part, hpart, rfl⟩, hcall, hindex⟩
    obtain ⟨e, he, hends⟩ := mem_entriesOf.mpr ⟨rfl, name, hcall, hindex⟩
    exact ⟨e, ⟨(part, u), List.mem_zipIdx_iff_getElem?.mpr hpart, he⟩, hends⟩

/-! ## Numbers of functions -/

theorem indexIn_eq_some_iff {names : List String} :
    indexIn names name = some v ↔ ∃ i, names.idxOf? name = some i ∧ v = i + 1 := by
  simp [indexIn, eq_comm]

theorem indexIn_lt {names : List String} (h : indexIn names name = some v) :
    0 < v ∧ v ≤ names.length := by
  obtain ⟨i, hi, rfl⟩ := indexIn_eq_some_iff.mp h
  obtain ⟨hlt, _⟩ := List.idxOf?_eq_some_iff.mp hi
  exact ⟨Nat.succ_pos i, hlt⟩

theorem exists_idxOf? {entries : Entries Function} {f : Function}
    (h : Entries.get? name entries = some f) :
    ∃ i, (Entries.keys entries).idxOf? name = some i ∧ entries[i]? = some (name, f) := by
  induction entries with
  | nil => cases h
  | cons e rest ih =>
    obtain ⟨key, f'⟩ := e
    by_cases hkey : key = name
    · subst hkey
      simp only [Entries.get?, if_true, Option.some.injEq] at h
      exact ⟨0, by simp [Entries.keys, List.idxOf?_cons], by rw [h]; rfl⟩
    · simp only [Entries.get?, hkey, if_false] at h
      obtain ⟨i, hi, he⟩ := ih h
      simp only [Entries.keys] at hi
      exact ⟨i + 1, by simp [Entries.keys, List.idxOf?_cons, hkey, hi], he⟩

theorem exists_indexIn {f : Function} (h : p.function? name = some f) :
    ∃ v, indexIn p.functions.keys name = some v ∧ p.bodies[v]? = some f.body := by
  obtain ⟨i, hi, he⟩ := exists_idxOf? h
  exact ⟨i + 1, indexIn_eq_some_iff.mpr ⟨i, hi, rfl⟩, by rw [bodies_succ, he]; rfl⟩

theorem inRange_ofProgram (hg : ofProgram p = .ok g) : g.InRange := by
  intro u v huv
  obtain ⟨_, _, _, _, hindex⟩ := (calls_iff hg).mp huv
  rw [(ofProgram_eq hg).1]
  have hlt := (indexIn_lt hindex).2
  simpa [Program.bodies, Table.keys, Entries.keys, Nat.lt_succ_iff] using hlt

/-! ## Ranks -/

/-- The number of nodes that a node leads to. -/
def rank (g : CallGraph) (v : Nat) : Nat := (g.reachedBy v).toFinset.card

theorem rank_le (hg : g.InRange) (v : Nat) : g.rank v ≤ g.nodes.length := by
  have hsubset : (g.reachedBy v).toFinset ⊆ Finset.range g.nodes.length := by
    intro x hx
    rw [List.mem_toFinset, mem_reachedBy hg] at hx
    exact Finset.mem_range.mpr (hg.lt_of_transGen hx)
  simpa [rank] using Finset.card_le_card hsubset

theorem rank_lt (hg : g.InRange) (huv : g.Calls u v) (hv : ¬ Relation.TransGen g.Calls v v) :
    g.rank v < g.rank u := by
  refine Finset.card_lt_card (Finset.ssubset_iff_of_subset ?_ |>.mpr ⟨v, ?_, ?_⟩)
  · intro x hx
    rw [List.mem_toFinset, mem_reachedBy hg] at hx ⊢
    exact .head huv hx
  · rw [List.mem_toFinset, mem_reachedBy hg]
    exact .single huv
  · rw [List.mem_toFinset, mem_reachedBy hg]
    exact hv

theorem rank_lt_of_call (hg : ofProgram p = .ok g) (hrec : g.recursion = []) {body : List Statement}
    (hbody : p.bodies[u]? = some body) (hcall : .call name ∈ Statement.nodesOf body)
    (hindex : indexIn p.functions.keys name = some v) : g.rank v < g.rank u := by
  have hrange := inRange_ofProgram hg
  have huv : g.Calls u v := (calls_iff hg).mpr ⟨body, name, hbody, hcall, hindex⟩
  have hfunction : v ∈ g.functionNodes :=
    mem_functionNodes.mpr ⟨(indexIn_lt hindex).1, hrange u v huv⟩
  exact rank_lt hrange huv ((recursion_eq_nil_iff hrange).mp hrec v hfunction)

end CallGraph

end BlockRobot
