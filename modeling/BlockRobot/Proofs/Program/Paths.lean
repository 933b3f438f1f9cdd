import BlockRobot.Path
import Mathlib.Data.List.Basic

/-!
# How paths are written

Steps are written one after another without a separator, so that a field with a dot or a bracket in its
name can look like several steps. Plain steps have no such fields, and no two lists of plain steps are
written alike: `renderSteps_injective`.
-/

namespace BlockRobot

namespace Path

/-- The text of a plain step ends where that of the next step begins. -/
def Step.Plain : Step → Prop
  | .index _ => True
  | .field label => ∀ c ∈ label.toList, c ≠ '[' ∧ c ≠ '.'

def chars : List Step → List Char
  | [] => []
  | .index i :: rest => '[' :: (Nat.toDigits 10 i ++ ']' :: chars rest)
  | .field label :: rest => '.' :: (label.toList ++ chars rest)

theorem toList_renderSteps (steps : List Step) : (renderSteps steps).toList = chars steps := by
  induction steps with
  | nil => rfl
  | cons s rest ih => cases s <;> simp [renderSteps, Step.render, chars, ih]

/-- A text that all satisfies `p`, before a text that does not begin so, can be told from it. -/
theorem eq_of_append_eq {p : Char → Bool} {xs ys xs' ys' : List Char} (hxs : ∀ c ∈ xs, p c)
    (hxs' : ∀ c ∈ xs', p c) (hys : ∀ c ∈ ys.head?, ¬ p c) (hys' : ∀ c ∈ ys'.head?, ¬ p c)
    (h : xs ++ ys = xs' ++ ys') : xs = xs' ∧ ys = ys' := by
  have takeWhile_eq {xs ys : List Char} (hxs : ∀ c ∈ xs, p c) (hys : ∀ c ∈ ys.head?, ¬ p c) :
      (xs ++ ys).takeWhile p = xs := by
    rw [List.takeWhile_append_of_pos hxs]
    cases ys with
    | nil => simp
    | cons c ys => simp [hys c rfl]
  obtain rfl : xs = xs' := by rw [← takeWhile_eq hxs hys, h, takeWhile_eq hxs' hys']
  exact ⟨rfl, List.append_cancel_left h⟩

theorem digits_unique {i j : Nat} {xs ys : List Char}
    (h : Nat.toDigits 10 i ++ ']' :: xs = Nat.toDigits 10 j ++ ']' :: ys) : i = j ∧ xs = ys := by
  have hdigits (n : Nat) : ∀ c ∈ Nat.toDigits 10 n, c.isDigit :=
    fun c => Nat.isDigit_of_mem_toDigits (by decide) (by decide)
  have hend (xs : List Char) : ∀ c ∈ (']' :: xs).head?, ¬ c.isDigit := by
    rintro c ⟨⟩
    decide
  obtain ⟨hij, hrest⟩ := eq_of_append_eq (hdigits i) (hdigits j) (hend xs) (hend ys) h
  rw [← Nat.ofDigitChars_ten_toDigits (n := i), hij, Nat.ofDigitChars_ten_toDigits]
  exact ⟨rfl, (List.cons.inj hrest).2⟩

theorem head_chars {steps : List Step} {c : Char} (h : c ∈ (chars steps).head?) :
    c = '[' ∨ c = '.' := by
  rcases steps with _ | ⟨⟨i⟩ | ⟨label⟩, rest⟩
  · cases h
  · exact .inl (Option.some.inj h).symm
  · exact .inr (Option.some.inj h).symm

theorem label_unique {label label' : String} {rest rest' : List Step} (hlabel : (Step.field label).Plain)
    (hlabel' : (Step.field label').Plain)
    (h : label.toList ++ chars rest = label'.toList ++ chars rest') :
    label = label' ∧ chars rest = chars rest' := by
  have hend (steps : List Step) : ∀ c ∈ (chars steps).head?, ¬ (c != '[' && c != '.') := by
    intro c hc
    rcases head_chars hc with rfl | rfl <;> decide
  obtain ⟨heq, hrest⟩ := eq_of_append_eq (p := fun c => c != '[' && c != '.')
    (by simpa [Step.Plain] using hlabel) (by simpa [Step.Plain] using hlabel') (hend rest)
    (hend rest') h
  exact ⟨String.toList_inj.mp heq, hrest⟩

theorem chars_injective {steps steps' : List Step} (hplain : ∀ s ∈ steps, s.Plain)
    (hplain' : ∀ s ∈ steps', s.Plain) (h : chars steps = chars steps') : steps = steps' := by
  induction steps generalizing steps' with
  | nil =>
    cases steps' with
    | nil => rfl
    | cons s' rest' => cases s' <;> cases h
  | cons s rest ih =>
    cases steps' with
    | nil => cases s <;> cases h
    | cons s' rest' =>
      rw [List.forall_mem_cons] at hplain hplain'
      cases s with
      | index i =>
        cases s' with
        | index j =>
          obtain ⟨rfl, hrest⟩ := digits_unique (List.cons.inj h).2
          rw [ih hplain.2 hplain'.2 hrest]
        | field label' => cases (List.cons.inj h).1
      | field label =>
        cases s' with
        | index j => cases (List.cons.inj h).1
        | field label' =>
          obtain ⟨rfl, hrest⟩ := label_unique hplain.1 hplain'.1 (List.cons.inj h).2
          rw [ih hplain.2 hplain'.2 hrest]

theorem renderSteps_injective {steps steps' : List Step} (hplain : ∀ s ∈ steps, s.Plain)
    (hplain' : ∀ s ∈ steps', s.Plain) (h : renderSteps steps = renderSteps steps') :
    steps = steps' := by
  apply chars_injective hplain hplain'
  rw [← toList_renderSteps, ← toList_renderSteps, h]

end Path

end BlockRobot
