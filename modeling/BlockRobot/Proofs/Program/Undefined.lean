import BlockRobot.Program.Lint
import Mathlib.Data.List.Forall2

/-!
# Calls of undefined functions

Linting reports a call of an undefined function at every place of a program that has one, in the order
of the places (`filter_body`). The places of a body do not depend on the path that leads to the body,
but for the start of their own paths: `placesOf_extend`.
-/

namespace BlockRobot

def Problem.isUndefined : Problem → Bool
  | .undefinedFunction _ _ => true
  | _ => false

namespace Lint

def isUndefined (i : Issue) : Bool := i.problem.isUndefined

def undefinedCall? (functions : Table Function) (place : Statement.Place) : Option Issue :=
  match place.statement with
  | .call name =>
    if functions.contains name then none
    else some ⟨place.path, .undefinedFunction name functions.keys⟩
  | _ => none

variable {functions : Table Function}

theorem filter_boxPairs (path : Path) (i : Nat) (ss : List Statement) :
    (boxPairs path i ss).filter isUndefined = [] := by
  fun_induction boxPairs path i ss with
  | case1 i s t rest here ih =>
    rw [List.filter_append, ih, List.append_nil]
    simp only [here]
    split <;> rfl
  | case2 => rfl

theorem filter_own (path : Path) (inLoop : Bool) (s : Statement) :
    (own functions path s).filter isUndefined =
      [⟨path, inLoop, s⟩].filterMap (undefinedCall? functions) := by
  cases s with
  | call name =>
    cases hname : functions.contains name <;>
      simp [own, ownProblem?, undefinedCall?, hname, isUndefined, Problem.isUndefined]
  | whileLoop c body => cases body <;> rfl
  | repeatRange head body =>
    simp only [own, ownProblem?]
    split
    · split <;> rfl
    · rfl
  | _ => rfl

mutual

theorem filter_statement (path : Path) (inLoop : Bool) (s : Statement) :
    (statement functions path s).filter isUndefined =
      (s.places path inLoop).filterMap (undefinedCall? functions) := by
  cases s with
  | repeatRange head body =>
    simp only [statement, Statement.places, List.filter_append, filter_own path inLoop,
      filter_boxPairs, filter_statements _ 0 true]
    rfl
  | whileLoop c body =>
    simp only [statement, Statement.places, List.filter_append, filter_own path inLoop,
      filter_boxPairs, filter_statements _ 0 true]
    rfl
  | ifElse c thenBody elseIfs elseBody =>
    simp only [statement, Statement.places, List.filter_append, filter_boxPairs,
      filter_statements _ 0 inLoop, filter_clauses path 0 inLoop, List.nil_append]
    rw [List.filterMap_cons_none rfl, List.filterMap_append, List.filterMap_append]
  | _ => exact filter_own path inLoop _

theorem filter_statements (path : Path) (i : Nat) (inLoop : Bool) (ss : List Statement) :
    (statements functions path i ss).filter isUndefined =
      (Statement.placesOf path i inLoop ss).filterMap (undefinedCall? functions) := by
  cases ss with
  | nil => rfl
  | cons s rest =>
    rw [statements, Statement.placesOf, List.filter_append, List.filterMap_append,
      filter_statement _ inLoop, filter_statements _ _ inLoop]

theorem filter_clauses (path : Path) (i : Nat) (inLoop : Bool)
    (elseIfs : List (Condition × List Statement)) :
    (clauses functions path i elseIfs).filter isUndefined =
      (Statement.placesOfClauses path i inLoop elseIfs).filterMap (undefinedCall? functions) := by
  cases elseIfs with
  | nil => rfl
  | cons clause rest =>
    obtain ⟨c, body⟩ := clause
    simp only [clauses, Statement.placesOfClauses, List.filter_append, List.filterMap_append,
      filter_boxPairs, filter_statements _ 0 inLoop, filter_clauses path _ inLoop, List.nil_append]

end

end Lint

namespace Path

variable (p : Path) (steps : List Step)

theorem index_extend (i : Nat) : (p.extend steps).index i = p.extend (steps ++ [.index i]) := by
  simp [index, extend]

theorem field_extend (label : String) :
    (p.extend steps).field label = p.extend (steps ++ [.field label]) := by
  simp [field, extend]

theorem elseIfPath_extend (i : Nat) : Statement.elseIfPath (p.extend steps) i =
    p.extend (steps ++ [.field "elseIf", .index i, .field "then"]) := by
  simp [Statement.elseIfPath, field, index, extend]

end Path

namespace Statement

/-- One statement, with the same steps behind two paths. -/
def Place.Moved (p q : Path) (place place' : Place) : Prop :=
  place.statement = place'.statement ∧
    ∃ steps, place.path = p.extend steps ∧ place'.path = q.extend steps

variable (p q : Path)

mutual

theorem moved_places (steps : List Path.Step) (inLoop : Bool) (s : Statement) :
    List.Forall₂ (Place.Moved p q) (places (p.extend steps) inLoop s)
      (places (q.extend steps) inLoop s) := by
  have hhere : Place.Moved p q ⟨p.extend steps, inLoop, s⟩ ⟨q.extend steps, inLoop, s⟩ :=
    ⟨rfl, steps, rfl, rfl⟩
  cases s with
  | repeatRange head body =>
    simp only [places, Path.field_extend]
    exact .cons hhere (moved_placesOf _ 0 true body)
  | whileLoop c body =>
    simp only [places, Path.field_extend]
    exact .cons hhere (moved_placesOf _ 0 true body)
  | ifElse c thenBody elseIfs elseBody =>
    simp only [places, Path.field_extend]
    refine .cons hhere (List.rel_append (List.rel_append ?_ ?_) ?_)
    · exact moved_placesOf _ 0 inLoop thenBody
    · exact moved_placesOfClauses steps 0 inLoop elseIfs
    · exact moved_placesOf _ 0 inLoop elseBody
  | _ => exact .cons hhere .nil

theorem moved_placesOf (steps : List Path.Step) (i : Nat) (inLoop : Bool) (ss : List Statement) :
    List.Forall₂ (Place.Moved p q) (placesOf (p.extend steps) i inLoop ss)
      (placesOf (q.extend steps) i inLoop ss) := by
  cases ss with
  | nil => exact .nil
  | cons s rest =>
    simp only [placesOf, Path.index_extend]
    exact List.rel_append (moved_places _ inLoop s) (moved_placesOf steps (i + 1) inLoop rest)

theorem moved_placesOfClauses (steps : List Path.Step) (i : Nat) (inLoop : Bool)
    (elseIfs : List (Condition × List Statement)) :
    List.Forall₂ (Place.Moved p q) (placesOfClauses (p.extend steps) i inLoop elseIfs)
      (placesOfClauses (q.extend steps) i inLoop elseIfs) := by
  cases elseIfs with
  | nil => exact .nil
  | cons clause rest =>
    obtain ⟨c, body⟩ := clause
    simp only [placesOfClauses, Path.elseIfPath_extend]
    exact List.rel_append (moved_placesOf _ 0 inLoop body)
      (moved_placesOfClauses steps (i + 1) inLoop rest)

end

end Statement

end BlockRobot
