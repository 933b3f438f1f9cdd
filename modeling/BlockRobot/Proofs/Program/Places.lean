import BlockRobot.Proofs.Program.Nodes
import BlockRobot.Proofs.Program.Paths
import Mathlib.Data.List.Forall2

/-!
# Following paths

A path leads from a list of statements through the lists that its labels name. The path of each place of
a body leads to the statement that a visit meets there (`forall₂_placesOf`), and no two paths that lead
anywhere are written alike (`follow?_unique`). A visit goes depth first, as `nodesOf` does.
-/

namespace BlockRobot

namespace Statement

open BlockRobot.Path (Step)

def isLoop : Statement → Bool
  | .repeatRange _ _ | .whileLoop _ _ => true
  | _ => false

/-- What a path leads to: a statement, how many a visit meets before it, and those on the way to it,
outermost first. -/
structure Spot where
  statement : Statement
  number : Nat
  around : List Statement

namespace Spot

def after (spot : Spot) (before : List Statement) : Spot :=
  { spot with number := before.length + spot.number }

def inside (spot : Spot) (s : Statement) : Spot :=
  { spot with number := spot.number + 1, around := s :: spot.around }

def inLoop (spot : Spot) : Bool := spot.around.any isLoop

end Spot

/-- The list that a statement nests under a label, after all that a visit meets before it. -/
def branch? : Statement → List Step → Option (List Statement × List Statement)
  | .repeatRange _ body, [.field "body"] => some ([], body)
  | .whileLoop _ body, [.field "body"] => some ([], body)
  | .ifElse _ thenBody _ _, [.field "then"] => some ([], thenBody)
  | .ifElse _ thenBody elseIfs _, [.field "elseIf", .index i, .field "then"] =>
    elseIfs[i]?.map fun clause => (nodesOf thenBody ++ nodesOfClauses (elseIfs.take i), clause.2)
  | .ifElse _ thenBody elseIfs elseBody, [.field "else"] =>
    some (nodesOf thenBody ++ nodesOfClauses elseIfs, elseBody)
  | _, _ => none

def under? (s : Statement) (label : List Step) (follow : List Statement → Option Spot) : Option Spot := do
  let (before, body) ← s.branch? label
  return ((← follow body).after before).inside s

mutual

/-- What the steps lead to from a list of statements. -/
def follow? (ss : List Statement) : List Step → Option Spot
  | .index i :: steps => do
    let spot ← enter? (← ss[i]?) steps
    return spot.after (nodesOf (ss.take i))
  | _ => none

def enter? (s : Statement) : List Step → Option Spot
  | [] => some ⟨s, 0, []⟩
  | .field "elseIf" :: .index i :: .field "then" :: steps =>
    s.under? [.field "elseIf", .index i, .field "then"] fun body => follow? body steps
  | .field label :: steps => s.under? [.field label] fun body => follow? body steps
  | .index _ :: _ => none

end

variable {s : Statement} {ss before body : List Statement} {label steps : List Step} {spot : Spot}
  {i : Nat}

/-! ## What a path leads to -/

theorem under?_eq_some {follow : List Statement → Option Spot} :
    s.under? label follow = some spot ↔ ∃ before body inner, s.branch? label = some (before, body) ∧
      follow body = some inner ∧ (inner.after before).inside s = spot := by
  simp [under?, Option.bind_eq_some_iff]

theorem follow?_eq_some :
    follow? ss (.index i :: steps) = some spot ↔ ∃ s inner, ss[i]? = some s ∧
      enter? s steps = some inner ∧ inner.after (nodesOf (ss.take i)) = spot := by
  simp [follow?, Option.bind_eq_some_iff]

theorem nodes_of_branch? (h : s.branch? label = some (before, body)) :
    ∃ rest, nodes s = s :: (before ++ (nodesOf body ++ rest)) := by
  unfold branch? at h
  split at h
  · cases h
    exact ⟨[], by simp [nodes]⟩
  · cases h
    exact ⟨[], by simp [nodes]⟩
  · next c thenBody elseIfs elseBody =>
    cases h
    exact ⟨nodesOfClauses elseIfs ++ nodesOf elseBody, by simp [nodes]⟩
  · next c thenBody elseIfs elseBody i =>
    obtain ⟨clause, hclause, hpair⟩ := Option.map_eq_some_iff.mp h
    cases hpair
    obtain ⟨hi, rfl⟩ := List.getElem?_eq_some_iff.mp hclause
    have hsplit := nodesOfClauses_append (elseIfs.take i) (elseIfs.drop i)
    rw [List.take_append_drop, List.drop_eq_getElem_cons hi] at hsplit
    refine ⟨nodesOfClauses (elseIfs.drop (i + 1)) ++ nodesOf elseBody, ?_⟩
    simp only [nodes, hsplit, nodesOfClauses, List.append_assoc]
  · cases h
    exact ⟨[], by simp [nodes]⟩
  · cases h

theorem nodesOf_of_getElem? (h : ss[i]? = some s) :
    nodesOf ss = nodesOf (ss.take i) ++ (nodes s ++ nodesOf (ss.drop (i + 1))) := by
  obtain ⟨hi, rfl⟩ := List.getElem?_eq_some_iff.mp h
  rw [← nodesOf, ← nodesOf_append, ← List.drop_eq_getElem_cons hi, List.take_append_drop]

theorem getElem?_between {α : Type} {xs ys zs : List α} {n : Nat} {a : α} (h : ys[n]? = some a) :
    (xs ++ (ys ++ zs))[xs.length + n]? = some a := by
  rw [List.getElem?_append_right (Nat.le_add_right _ _), Nat.add_sub_cancel_left,
    List.getElem?_append_left (List.getElem?_eq_some_iff.mp h).1, h]

theorem enter?_branch (hbranch : s.branch? label = some (before, body))
    (hspot : follow? body steps = some spot) :
    enter? s (label ++ steps) = some ((spot.after before).inside s) := by
  have hunder : s.under? label (fun body => follow? body steps) =
      some ((spot.after before).inside s) :=
    under?_eq_some.mpr ⟨before, body, spot, hbranch, hspot, rfl⟩
  unfold branch? at hbranch
  split at hbranch
  case h_6 => cases hbranch
  all_goals exact hunder

theorem getElem?_inside (hbranch : s.branch? label = some (before, body))
    (hinner : (nodesOf body)[spot.number]? = some spot.statement) :
    (nodes s)[((spot.after before).inside s).number]? = some spot.statement := by
  obtain ⟨rest, hnodes⟩ := nodes_of_branch? hbranch
  rw [hnodes]
  exact getElem?_between hinner

mutual

/-- A visit meets what the steps lead to at the number of the spot. -/
theorem getElem?_of_follow? (ss : List Statement) (steps : List Step) {spot : Spot}
    (h : follow? ss steps = some spot) : (nodesOf ss)[spot.number]? = some spot.statement := by
  unfold follow? at h
  split at h
  · obtain ⟨s, inner, hs, hinner, rfl⟩ := follow?_eq_some.mp h
    rw [nodesOf_of_getElem? hs]
    exact getElem?_between (getElem?_of_enter? s _ hinner)
  · cases h

theorem getElem?_of_enter? (s : Statement) (steps : List Step) {spot : Spot}
    (h : enter? s steps = some spot) : (nodes s)[spot.number]? = some spot.statement := by
  unfold enter? at h
  split at h
  · cases h
    simp [nodes_eq]
  · obtain ⟨before, body, inner, hbranch, hinner, rfl⟩ := under?_eq_some.mp h
    exact getElem?_inside hbranch (getElem?_of_follow? body _ hinner)
  · obtain ⟨before, body, inner, hbranch, hinner, rfl⟩ := under?_eq_some.mp h
    exact getElem?_inside hbranch (getElem?_of_follow? body _ hinner)
  · cases h

end

/-! ## What leads to a place -/

theorem length_places (path : Path) (inLoop : Bool) (s : Statement) :
    (places path inLoop s).length = (nodes s).length := by
  rw [← statements_places path inLoop s, List.length_map]

theorem length_placesOf (path : Path) (i : Nat) (inLoop : Bool) (ss : List Statement) :
    (placesOf path i inLoop ss).length = (nodesOf ss).length := by
  rw [← statements_placesOf path i inLoop ss, List.length_map]

theorem length_placesOfClauses (path : Path) (i : Nat) (inLoop : Bool)
    (elseIfs : List (Condition × List Statement)) :
    (placesOfClauses path i inLoop elseIfs).length = (nodesOfClauses elseIfs).length := by
  rw [← statements_placesOfClauses path i inLoop elseIfs, List.length_map]

theorem getElem?_append_cases {α : Type} {xs ys : List α} {k : Nat} {a : α}
    (h : (xs ++ ys)[k]? = some a) :
    xs[k]? = some a ∨ ∃ j, ys[j]? = some a ∧ xs.length + j = k := by
  rcases Nat.lt_or_ge k xs.length with hk | hk
  · rw [List.getElem?_append_left hk] at h
    exact .inl h
  · rw [List.getElem?_append_right hk] at h
    exact .inr ⟨k - xs.length, h, Nat.add_sub_cancel' hk⟩

def Spot.place (spot : Spot) (path : Path) (inLoop : Bool) (steps : List Step) : Place :=
  ⟨path.extend steps, inLoop || spot.inLoop, spot.statement⟩

/-- Some steps lead from the path to the place, which a visit meets as number `k`. -/
def LeadsTo (follow : List Step → Option Spot) (path : Path) (inLoop : Bool) (k : Nat)
    (place : Place) : Prop :=
  ∃ steps spot, follow steps = some spot ∧ spot.number = k ∧ spot.place path inLoop steps = place

variable {path : Path} {inLoop inBody : Bool} {place : Place} {j k : Nat} {rest : List Statement}

theorem LeadsTo.here : LeadsTo (enter? s) path inLoop 0 ⟨path, inLoop, s⟩ :=
  ⟨[], ⟨s, 0, []⟩, rfl, rfl, by simp [Spot.place, Spot.inLoop, Path.extend]⟩

theorem LeadsTo.after (h : LeadsTo (enter? s) (path.index ss.length) inLoop k place) :
    LeadsTo (follow? (ss ++ s :: rest)) path inLoop ((nodesOf ss).length + k) place := by
  obtain ⟨steps, spot, hspot, rfl, rfl⟩ := h
  refine ⟨.index ss.length :: steps, spot.after (nodesOf ss), ?_, rfl, ?_⟩
  · refine follow?_eq_some.mpr ⟨s, spot, by simp, hspot, by simp⟩
  · simp [Spot.place, Spot.after, Spot.inLoop, Path.extend, Path.index]

/-- A list under a label is in a loop if the statement is one or stands in one. -/
theorem LeadsTo.inside (hbranch : s.branch? label = some (before, body))
    (hloop : inBody = (inLoop || s.isLoop))
    (h : LeadsTo (follow? body) (path.extend label) inBody k place) :
    LeadsTo (enter? s) path inLoop (before.length + k + 1) place := by
  obtain ⟨steps, spot, hspot, rfl, rfl⟩ := h
  refine ⟨label ++ steps, (spot.after before).inside s, enter?_branch hbranch hspot, rfl, ?_⟩
  simp [Spot.place, Spot.inside, Spot.after, Spot.inLoop, Path.extend, Bool.or_assoc, hloop]

-- The lists are visited from the front: the induction is on what is still to visit, and `ss` and `elseIfs`
-- hold what a visit has met, so that `follow?` and `enter?` are about the whole list throughout.
mutual

theorem leadsTo_places (path : Path) (inLoop : Bool) (s : Statement) {k : Nat} {place : Place}
    (h : (places path inLoop s)[k]? = some place) : LeadsTo (enter? s) path inLoop k place := by
  cases k with
  | zero =>
    have hplace : place = ⟨path, inLoop, s⟩ := by
      cases s <;> exact (Option.some.inj h).symm
    rw [hplace]
    exact .here
  | succ k =>
    cases s with
    | repeatRange head body =>
      have hbody := leadsTo_placesOf (path.field "body") true [] body h
      simpa [nodesOf] using LeadsTo.inside (s := .repeatRange head body) rfl (by simp [isLoop]) hbody
    | whileLoop c body =>
      have hbody := leadsTo_placesOf (path.field "body") true [] body h
      simpa [nodesOf] using LeadsTo.inside (s := .whileLoop c body) rfl (by simp [isLoop]) hbody
    | ifElse c thenBody elseIfs elseBody =>
      rcases getElem?_append_cases h with h | ⟨j, helse, rfl⟩
      · rcases getElem?_append_cases h with h | ⟨j, helseIf, rfl⟩
        · have hthen := leadsTo_placesOf (path.field "then") inLoop [] thenBody h
          simpa [nodesOf] using
            LeadsTo.inside (s := .ifElse c thenBody elseIfs elseBody) rfl (by simp [isLoop]) hthen
        · have hclauses := leadsTo_placesOfClauses path inLoop c thenBody [] elseIfs elseBody helseIf
          simpa [length_placesOf, nodesOfClauses] using hclauses
      · have helse := leadsTo_placesOf (path.field "else") inLoop [] elseBody helse
        simpa [nodesOf, length_placesOf, length_placesOfClauses] using
          LeadsTo.inside (s := .ifElse c thenBody elseIfs elseBody) rfl (by simp [isLoop]) helse
    | _ => cases h

theorem leadsTo_placesOf (path : Path) (inLoop : Bool) (ss rest : List Statement) {k : Nat}
    {place : Place} (h : (placesOf path ss.length inLoop rest)[k]? = some place) :
    LeadsTo (follow? (ss ++ rest)) path inLoop ((nodesOf ss).length + k) place := by
  cases rest with
  | nil => cases h
  | cons s rest =>
    rcases getElem?_append_cases h with h | ⟨j, hrest, rfl⟩
    · exact (leadsTo_places (path.index ss.length) inLoop s h).after
    · have hrest := leadsTo_placesOf path inLoop (ss ++ [s]) rest (by simpa using hrest)
      simpa [length_places, nodesOf_append, nodesOf, Nat.add_assoc] using hrest

theorem leadsTo_placesOfClauses (path : Path) (inLoop : Bool) (c : Condition)
    (thenBody : List Statement) (elseIfs rest : List (Condition × List Statement))
    (elseBody : List Statement) {k : Nat} {place : Place}
    (h : (placesOfClauses path elseIfs.length inLoop rest)[k]? = some place) :
    LeadsTo (enter? (.ifElse c thenBody (elseIfs ++ rest) elseBody)) path inLoop
      ((nodesOf thenBody ++ nodesOfClauses elseIfs).length + k + 1) place := by
  cases rest with
  | nil => cases h
  | cons clause rest =>
    obtain ⟨d, body⟩ := clause
    rcases getElem?_append_cases h with h | ⟨j, hrest, rfl⟩
    · have hbranch : branch? (.ifElse c thenBody (elseIfs ++ (d, body) :: rest) elseBody)
          [.field "elseIf", .index elseIfs.length, .field "then"] =
          some (nodesOf thenBody ++ nodesOfClauses elseIfs, body) := by
        simp [branch?]
      have hbody := leadsTo_placesOf (elseIfPath path elseIfs.length) inLoop [] body h
      refine .inside hbranch (Bool.or_false inLoop).symm ?_
      simpa [elseIfPath, Path.field, Path.index, Path.extend, nodesOf] using hbody
    · have hrest := leadsTo_placesOfClauses path inLoop c thenBody (elseIfs ++ [(d, body)]) rest
        elseBody (by simpa using hrest)
      simpa [length_placesOf, nodesOfClauses_append, nodesOfClauses, Nat.add_assoc] using hrest

end

/-- The places of a body are what a visit meets, each with a path that leads to it. -/
theorem forall₂_placesOf (path : Path) (inLoop : Bool) (body : List Statement) :
    List.Forall₂ (fun place node => place.statement = node.1 ∧
      LeadsTo (follow? body) path inLoop node.2 place)
      (placesOf path 0 inLoop body) (nodesOf body).zipIdx := by
  rw [List.forall₂_iff_get]
  refine ⟨by simp [length_placesOf], fun k hk _ => ⟨?_, ?_⟩⟩
  · simp [← statements_placesOf path 0 inLoop body]
  · simpa [nodesOf] using leadsTo_placesOf path inLoop [] body (List.getElem?_eq_getElem hk)

/-! ## The steps of a path -/

theorem plain_of_branch? (h : s.branch? label = some (before, body)) : ∀ step ∈ label, step.Plain := by
  unfold branch? at h
  split at h
  case h_6 => cases h
  all_goals simp [Step.Plain]

mutual

theorem plain_of_follow? (ss : List Statement) (steps : List Step) {spot : Spot}
    (h : follow? ss steps = some spot) : ∀ step ∈ steps, step.Plain := by
  unfold follow? at h
  split at h
  · obtain ⟨s, inner, _, hinner, _⟩ := follow?_eq_some.mp h
    exact List.forall_mem_cons.mpr ⟨trivial, plain_of_enter? s _ hinner⟩
  · cases h

theorem plain_of_enter? (s : Statement) (steps : List Step) {spot : Spot}
    (h : enter? s steps = some spot) : ∀ step ∈ steps, step.Plain := by
  unfold enter? at h
  split at h
  · exact fun _ hstep => nomatch hstep
  · obtain ⟨_, body, inner, hbranch, hinner, _⟩ := under?_eq_some.mp h
    exact List.forall_mem_append.mpr ⟨plain_of_branch? hbranch, plain_of_follow? body _ hinner⟩
  · obtain ⟨_, body, inner, hbranch, hinner, _⟩ := under?_eq_some.mp h
    exact List.forall_mem_append.mpr ⟨plain_of_branch? hbranch, plain_of_follow? body _ hinner⟩
  · cases h

end

/-- Paths that are written alike lead to the same. -/
theorem follow?_unique {steps' : List Step} {spot' : Spot} (h : follow? ss steps = some spot)
    (h' : follow? ss steps' = some spot')
    (htext : Path.renderSteps steps = Path.renderSteps steps') : steps = steps' ∧ spot = spot' := by
  obtain rfl : steps = steps' :=
    Path.renderSteps_injective (plain_of_follow? ss steps h) (plain_of_follow? ss steps' h') htext
  exact ⟨rfl, Option.some.inj (h.symm.trans h')⟩

end Statement

end BlockRobot
