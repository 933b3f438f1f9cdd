/-!
# Queues

A list that knows its length, taken from the front and filled at the front.
-/

namespace BlockRobot

structure Queue (α : Type) where
  items : List α
  size : Nat
  size_eq : size = items.length

namespace Queue

variable {α : Type}

def ofList (xs : List α) : Queue α := ⟨xs, xs.length, rfl⟩

def isEmpty (q : Queue α) : Bool := q.size == 0

def pop? (q : Queue α) : Option (α × Queue α) :=
  match h : q.items with
  | [] => none
  | x :: rest => some (x, ⟨rest, q.size - 1, by simp [q.size_eq, h]⟩)

/-- Puts `xs` in front, in order. -/
def pushFront (q : Queue α) (xs : List α) : Queue α :=
  ⟨xs ++ q.items, xs.length + q.size, by simp [q.size_eq]⟩

@[ext] theorem ext {q r : Queue α} (h : q.items = r.items) : q = r := by
  obtain ⟨xs, n, hn⟩ := q
  obtain ⟨ys, m, hm⟩ := r
  simp only at h
  subst h hn hm
  rfl

@[simp] theorem items_ofList (xs : List α) : (ofList xs).items = xs := rfl

@[simp] theorem items_pushFront (q : Queue α) (xs : List α) : (q.pushFront xs).items = xs ++ q.items :=
  rfl

@[simp] theorem pushFront_nil (q : Queue α) : q.pushFront [] = q := ext rfl

theorem pop?_eq_none_iff {q : Queue α} : q.pop? = none ↔ q.items = [] := by
  unfold pop?; split <;> simp_all

theorem pop?_eq_some_iff {q r : Queue α} {x : α} : q.pop? = some (x, r) ↔ q.items = x :: r.items := by
  unfold pop?
  split
  · simp_all
  · next y rest h =>
    simp only [Option.some.injEq, Prod.mk.injEq, h, List.cons.injEq]
    constructor
    · rintro ⟨rfl, rfl⟩; exact ⟨rfl, rfl⟩
    · rintro ⟨rfl, hr⟩; exact ⟨rfl, Queue.ext hr⟩

end Queue

end BlockRobot
