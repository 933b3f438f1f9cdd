/-!
# Sums over lists
-/

namespace BlockRobot

/-- The sum of `f` over the members of a list. -/
def sumOver {α : Type} (f : α → Nat) : List α → Nat
  | [] => 0
  | a :: rest => f a + sumOver f rest

theorem sumOver_append {α : Type} (f : α → Nat) (xs ys : List α) :
    sumOver f (xs ++ ys) = sumOver f xs + sumOver f ys := by
  induction xs with
  | nil => simp [sumOver]
  | cons x rest ih => simp [sumOver, ih, Nat.add_assoc]

theorem sumOver_map {α β : Type} (f : β → Nat) (g : α → β) (xs : List α) :
    sumOver f (xs.map g) = sumOver (fun a => f (g a)) xs := by
  induction xs with
  | nil => rfl
  | cons x rest ih => simp only [List.map_cons, sumOver, ih]

theorem sumOver_congr {α : Type} {f g : α → Nat} {xs : List α} (h : ∀ x ∈ xs, f x = g x) :
    sumOver f xs = sumOver g xs := by
  induction xs with
  | nil => rfl
  | cons x rest ih =>
    rw [sumOver, sumOver, h x List.mem_cons_self, ih fun y hy => h y (List.mem_cons_of_mem x hy)]

theorem length_flatMap {α β : Type} (f : α → List β) (xs : List α) :
    (xs.flatMap f).length = sumOver (fun a => (f a).length) xs := by
  induction xs with
  | nil => rfl
  | cons x rest ih => rw [List.flatMap_cons, List.length_append, ih, sumOver]

theorem le_sumOver {α : Type} (f : α → Nat) {xs : List α} {x : α} (h : x ∈ xs) :
    f x ≤ sumOver f xs := by
  induction xs with
  | nil => cases h
  | cons y rest ih =>
    rcases List.mem_cons.mp h with rfl | h
    · exact Nat.le_add_right _ _
    · exact Nat.le_trans (ih h) (Nat.le_add_left _ _)

end BlockRobot
