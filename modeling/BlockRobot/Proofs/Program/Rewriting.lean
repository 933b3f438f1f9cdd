import BlockRobot.Program.Basic
import Mathlib.Logic.Relation

/-!
# Replacing a statement

`Statement.Rewrites` replaces a statement at one place of a list, at any depth, by others, and
`Program.Rewrites` does so in the actions or in a function of a program. The program that results is
equal to the first one but for that place: `Program.Rewrites.similar`.
-/

namespace BlockRobot

open Relation (ReflGen)

namespace Statement

/-! ## Lists of statements -/

mutual

/-- At one place, at any depth, a statement `s` is replaced by statements `new` with `R s new`, in the list
in which it stands. -/
inductive Rewrites (R : Statement → List Statement → Prop) : List Statement → List Statement → Prop where
  | here {s : Statement} {new rest : List Statement} (replaced : R s new) :
      Rewrites R (s :: rest) (new ++ rest)
  | inside {s s' : Statement} {rest : List Statement} (nested : RewritesIn R s s') :
      Rewrites R (s :: rest) (s' :: rest)
  | later {s : Statement} {rest rest' : List Statement} (others : Rewrites R rest rest') :
      Rewrites R (s :: rest) (s :: rest')

inductive RewritesIn (R : Statement → List Statement → Prop) : Statement → Statement → Prop where
  | rangeBody {head : LoopHead} {body body' : List Statement} (nested : Rewrites R body body') :
      RewritesIn R (.repeatRange head body) (.repeatRange head body')
  | whileBody {c : Condition} {body body' : List Statement} (nested : Rewrites R body body') :
      RewritesIn R (.whileLoop c body) (.whileLoop c body')
  | thenBody {c : Condition} {thenBody thenBody' elseBody : List Statement}
      {elseIfs : List (Condition × List Statement)} (nested : Rewrites R thenBody thenBody') :
      RewritesIn R (.ifElse c thenBody elseIfs elseBody) (.ifElse c thenBody' elseIfs elseBody)
  | elseIfBody {c c' : Condition} {thenBody elseBody body body' : List Statement}
      {before after : List (Condition × List Statement)} (nested : Rewrites R body body') :
      RewritesIn R (.ifElse c thenBody (before ++ (c', body) :: after) elseBody)
        (.ifElse c thenBody (before ++ (c', body') :: after) elseBody)
  | elseBody {c : Condition} {thenBody elseBody elseBody' : List Statement}
      {elseIfs : List (Condition × List Statement)} (nested : Rewrites R elseBody elseBody') :
      RewritesIn R (.ifElse c thenBody elseIfs elseBody) (.ifElse c thenBody elseIfs elseBody')

end

/-- The two lists are equal but for one place at most. -/
abbrev Similar (R : Statement → List Statement → Prop) : List Statement → List Statement → Prop :=
  ReflGen (Rewrites R)

theorem kind_eq_of_rewritesIn {R : Statement → List Statement → Prop} {s s' : Statement}
    (h : ReflGen (RewritesIn R) s s') : s'.kind = s.kind := by
  cases h with
  | refl => rfl
  | single h => cases h <;> rfl

end Statement

/-! ## Programs -/

inductive Program.Rewrites (R : Statement → List Statement → Prop) (p : Program) : Program → Prop where
  | actions {actions : List Statement} (replaced : Statement.Rewrites R p.actions actions) :
      Rewrites R p { p with actions }
  | function {key : String} {f : Function} {body : List Statement} (defined : p.function? key = some f)
      (replaced : Statement.Rewrites R f.body body) :
      Rewrites R p { p with functions := p.functions.insert key { f with body } }

/-- Programs that are equal but for places of their bodies, one in each at most. -/
structure Program.Similar (R : Statement → List Statement → Prop) (p p' : Program) : Prop where
  actions : Statement.Similar R p.actions p'.actions
  unrolled : p'.unrolled = p.unrolled
  functions : ∀ name, Option.Rel (fun f f' => Statement.Similar R f.body f'.body) (p.function? name)
    (p'.function? name)

theorem Program.Rewrites.similar {R : Statement → List Statement → Prop} {p p' : Program}
    (h : p.Rewrites R p') : p.Similar R p' := by
  have hsame (name : String) :
      Option.Rel (fun f f' => Statement.Similar R f.body f'.body) (p.function? name)
        (p.function? name) := by
    cases p.function? name with
    | none => exact .none
    | some f => exact .some .refl
  cases h with
  | actions replaced => exact ⟨.single replaced, rfl, hsame⟩
  | @function key f body defined replaced =>
    refine ⟨.refl, rfl, fun name => ?_⟩
    simp only [Program.function?, Table.get?_insert]
    split
    · next heq =>
      subst heq
      rw [show p.functions.get? key = some f from defined]
      exact .some (.single replaced)
    · exact hsame name

end BlockRobot
