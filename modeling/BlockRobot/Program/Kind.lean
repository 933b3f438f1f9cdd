/-!
# Kinds of statements
-/

namespace BlockRobot

inductive Kind where
  | forward
  | turnLeft
  | turnRight
  | turnBack
  | collect
  | putBox
  | takeBox
  | repeatTimes
  | repeatRange
  | ifElse
  | whileLoop
  | call
  deriving DecidableEq, Repr

namespace Kind

def all : List Kind :=
  [.forward, .turnLeft, .turnRight, .turnBack, .collect, .putBox, .takeBox, .repeatTimes, .repeatRange,
    .ifElse, .whileLoop, .call]

theorem mem_all (k : Kind) : k ∈ all := by cases k <;> simp [all]

def tag : Kind → String
  | .forward => "forward"
  | .turnLeft => "turnLeft"
  | .turnRight => "turnRight"
  | .turnBack => "turnBack"
  | .collect => "collect"
  | .putBox => "putBox"
  | .takeBox => "takeBox"
  | .repeatTimes => "repeat"
  | .repeatRange => "repeatRange"
  | .ifElse => "if"
  | .whileLoop => "while"
  | .call => "callFunction"

def ofTag? (s : String) : Option Kind := all.find? (·.tag == s)

theorem ofTag?_tag (k : Kind) : ofTag? k.tag = some k := by cases k <;> decide

def isPrimitive : Kind → Bool
  | .forward | .turnLeft | .turnRight | .turnBack | .collect | .putBox | .takeBox => true
  | .repeatTimes | .repeatRange | .ifElse | .whileLoop | .call => false

def isBoxAction : Kind → Bool
  | .putBox | .takeBox => true
  | _ => false

end Kind

/-- A set of kinds, listed in the order of `Kind.all`. -/
structure KindSet where
  toList : List Kind
  ordered : toList = Kind.all.filter toList.contains
  deriving DecidableEq, Repr

namespace KindSet

def empty : KindSet := ⟨[], rfl⟩

def contains (s : KindSet) (k : Kind) : Bool := s.toList.contains k

def ofPredicate (p : Kind → Bool) : KindSet :=
  ⟨Kind.all.filter p, List.filter_congr fun k _ => by simp [Kind.mem_all]⟩

def insert (s : KindSet) (k : Kind) : KindSet := ofPredicate fun j => j == k || s.contains j

def ofList (ks : List Kind) : KindSet := ks.foldl insert empty

instance : Membership Kind KindSet := ⟨fun s k => k ∈ s.toList⟩

instance (k : Kind) (s : KindSet) : Decidable (k ∈ s) := inferInstanceAs (Decidable (k ∈ s.toList))

theorem mem_def {s : KindSet} {k : Kind} : k ∈ s ↔ k ∈ s.toList := Iff.rfl

theorem contains_iff {s : KindSet} {k : Kind} : s.contains k = true ↔ k ∈ s := by
  simp [contains, mem_def]

@[simp] theorem mem_insert {s : KindSet} {j k : Kind} : j ∈ s.insert k ↔ j = k ∨ j ∈ s := by
  simp [insert, ofPredicate, mem_def, contains, Kind.mem_all]

@[ext] theorem ext {s t : KindSet} (h : ∀ k, k ∈ s ↔ k ∈ t) : s = t := by
  have hl : s.toList = t.toList := by
    rw [s.ordered, t.ordered]
    exact List.filter_congr fun k _ =>
      Bool.eq_iff_iff.mpr (contains_iff.trans ((h k).trans contains_iff.symm))
  cases s; cases t; cases hl; rfl

theorem mem_ofList {ks : List Kind} {k : Kind} : k ∈ ofList ks ↔ k ∈ ks := by
  have hfold : ∀ (ks : List Kind) (s : KindSet), k ∈ ks.foldl insert s ↔ k ∈ ks ∨ k ∈ s := by
    intro ks
    induction ks with
    | nil => simp
    | cons j rest ih =>
      intro s
      rw [List.foldl_cons, ih, mem_insert, List.mem_cons, or_assoc, or_left_comm]
  rw [ofList, hfold]
  simp [empty, mem_def]

theorem ofList_toList (s : KindSet) : ofList s.toList = s :=
  ext fun _ => mem_ofList

end KindSet

end BlockRobot
