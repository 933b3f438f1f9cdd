import BlockRobot.Program.Basic

/-!
# The statements of a program

`Program.nodes` lists the statements of a program. It is closed under nesting (`mem_nodes_of_nested`)
and under calls (`mem_nodes_of_call`).
-/

namespace BlockRobot

namespace Statement

/-- The statements that a statement nests, without what those nest again. -/
def nested : Statement → List Statement
  | .repeatRange _ body => body
  | .ifElse _ thenBody elseIfs elseBody => thenBody ++ elseIfs.flatMap Prod.snd ++ elseBody
  | .whileLoop _ body => body
  | _ => []

theorem nodesOf_append (ss ts : List Statement) : nodesOf (ss ++ ts) = nodesOf ss ++ nodesOf ts := by
  induction ss with
  | nil => rfl
  | cons s rest ih => simp only [List.cons_append, nodesOf, ih, List.append_assoc]

theorem nodesOf_flatMap {α : Type} (xs : List α) (f : α → List Statement) :
    nodesOf (xs.flatMap f) = xs.flatMap fun x => nodesOf (f x) := by
  induction xs with
  | nil => rfl
  | cons x rest ih => rw [List.flatMap_cons, nodesOf_append, ih, List.flatMap_cons]

theorem nodesOfClauses_eq (elseIfs : List (Condition × List Statement)) :
    nodesOfClauses elseIfs = nodesOf (elseIfs.flatMap Prod.snd) := by
  induction elseIfs with
  | nil => rfl
  | cons clause rest ih =>
    simp only [nodesOfClauses, List.flatMap_cons, nodesOf_append, ih]

theorem nodesOfClauses_append (xs ys : List (Condition × List Statement)) :
    nodesOfClauses (xs ++ ys) = nodesOfClauses xs ++ nodesOfClauses ys := by
  simp only [nodesOfClauses_eq, List.flatMap_append, nodesOf_append]

theorem nodes_eq (s : Statement) : s.nodes = s :: nodesOf s.nested := by
  cases s with
  | ifElse c thenBody elseIfs elseBody =>
    simp only [nodes, nested, nodesOf_append, nodesOfClauses_eq]
  | _ => rfl

theorem mem_nodesOf_of_mem {s : Statement} {ss : List Statement} (h : s ∈ ss) : s ∈ nodesOf ss := by
  induction h with
  | head rest => simp [nodesOf, nodes_eq]
  | tail t _ ih => exact List.mem_append_right _ ih

theorem nodes_subset_of_nested {s t : Statement} (h : t ∈ s.nodes)
    (hnested : t ∈ nodesOf s.nested → t.nodes ⊆ nodesOf s.nested) : t.nodes ⊆ s.nodes := by
  rw [nodes_eq s, List.mem_cons] at h
  rcases h with rfl | h
  · exact List.Subset.refl _
  · rw [nodes_eq s]
    exact List.subset_cons_of_subset _ (hnested h)

mutual

theorem nodes_subset {t : Statement} (s : Statement) (h : t ∈ s.nodes) : t.nodes ⊆ s.nodes := by
  refine nodes_subset_of_nested h fun h => ?_
  cases s with
  | repeatRange head body => exact nodesOf_subset body h
  | whileLoop c body => exact nodesOf_subset body h
  | ifElse c thenBody elseIfs elseBody =>
    simp only [nested, nodesOf_append, ← nodesOfClauses_eq, List.mem_append] at h ⊢
    rcases h with (h | h) | h
    · exact List.subset_append_of_subset_left _
        (List.subset_append_of_subset_left _ (nodesOf_subset thenBody h))
    · exact List.subset_append_of_subset_left _
        (List.subset_append_of_subset_right _ (nodesOfClauses_subset elseIfs h))
    · exact List.subset_append_of_subset_right _ (nodesOf_subset elseBody h)
  | _ => cases h

theorem nodesOf_subset {t : Statement} (ss : List Statement) (h : t ∈ nodesOf ss) :
    t.nodes ⊆ nodesOf ss := by
  cases ss with
  | nil => cases h
  | cons s rest =>
    rcases List.mem_append.mp h with h | h
    · exact List.subset_append_of_subset_left _ (nodes_subset s h)
    · exact List.subset_append_of_subset_right _ (nodesOf_subset rest h)

theorem nodesOfClauses_subset {t : Statement} (elseIfs : List (Condition × List Statement))
    (h : t ∈ nodesOfClauses elseIfs) : t.nodes ⊆ nodesOfClauses elseIfs := by
  cases elseIfs with
  | nil => cases h
  | cons clause rest =>
    obtain ⟨c, body⟩ := clause
    rcases List.mem_append.mp h with h | h
    · exact List.subset_append_of_subset_left _ (nodesOf_subset body h)
    · exact List.subset_append_of_subset_right _ (nodesOfClauses_subset rest h)

end

/-! ## Places -/

mutual

theorem statements_places (path : Path) (inLoop : Bool) (s : Statement) :
    (places path inLoop s).map Place.statement = nodes s := by
  cases s with
  | repeatRange head body => simp only [places, nodes, List.map_cons, statements_placesOf]
  | whileLoop c body => simp only [places, nodes, List.map_cons, statements_placesOf]
  | ifElse c thenBody elseIfs elseBody =>
    simp only [places, nodes, List.map_cons, List.map_append, statements_placesOf,
      statements_placesOfClauses]
  | _ => rfl

theorem statements_placesOf (path : Path) (i : Nat) (inLoop : Bool) (ss : List Statement) :
    (placesOf path i inLoop ss).map Place.statement = nodesOf ss := by
  cases ss with
  | nil => rfl
  | cons s rest =>
    simp only [placesOf, nodesOf, List.map_append, statements_places, statements_placesOf]

theorem statements_placesOfClauses (path : Path) (i : Nat) (inLoop : Bool)
    (elseIfs : List (Condition × List Statement)) :
    (placesOfClauses path i inLoop elseIfs).map Place.statement = nodesOfClauses elseIfs := by
  cases elseIfs with
  | nil => rfl
  | cons clause rest =>
    obtain ⟨c, body⟩ := clause
    simp only [placesOfClauses, nodesOfClauses, List.map_append, statements_placesOf,
      statements_placesOfClauses]

end

end Statement

namespace Program

def nodes (p : Program) : List Statement := p.bodies.flatMap Statement.nodesOf

variable {p : Program} {s t : Statement}

theorem mem_nodes_of_body {body : List Statement} (hbody : body ∈ p.bodies) (h : s ∈ body) :
    s ∈ p.nodes :=
  List.mem_flatMap.mpr ⟨body, hbody, Statement.mem_nodesOf_of_mem h⟩

theorem mem_nodes_of_nested (h : s ∈ p.nodes) (ht : t ∈ s.nested) : t ∈ p.nodes := by
  obtain ⟨body, hbody, hs⟩ := List.mem_flatMap.mp h
  refine List.mem_flatMap.mpr ⟨body, hbody, Statement.nodesOf_subset body hs ?_⟩
  rw [Statement.nodes_eq]
  exact List.mem_cons_of_mem _ (Statement.mem_nodesOf_of_mem ht)

theorem mem_nodes_of_call {name : String} {f : Function} (h : p.function? name = some f)
    (ht : t ∈ f.body) : t ∈ p.nodes := by
  have hbody : f.body ∈ p.bodies :=
    List.mem_cons_of_mem _ (List.mem_map.mpr ⟨(name, f), Entries.mem_of_get? h, rfl⟩)
  exact mem_nodes_of_body hbody ht

end Program

end BlockRobot
