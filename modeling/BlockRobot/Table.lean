import BlockRobot.Entries

/-!
# Tables

A table lists its entries in the order in which their keys were first put in, each key once. Main
statements: `get?_insert` and `keys_insert`.
-/

namespace BlockRobot

structure Table (α : Type) where
  entries : Entries α
  nodup : (Entries.keys entries).Nodup
  deriving DecidableEq

namespace Table

variable {α : Type}

def empty : Table α := ⟨[], List.nodup_nil⟩

instance [BEq α] : BEq (Table α) := ⟨fun s t => s.entries == t.entries⟩

instance [Repr α] : Repr (Table α) := ⟨fun t => reprPrec t.entries⟩

@[ext] theorem ext {s t : Table α} (h : s.entries = t.entries) : s = t := by
  cases s; cases t; cases h; rfl

def isEmpty (t : Table α) : Bool := t.entries.isEmpty

def size (t : Table α) : Nat := t.entries.length

def keys (t : Table α) : List String := Entries.keys t.entries

def get? (t : Table α) (key : String) : Option α := Entries.get? key t.entries

def contains (t : Table α) (key : String) : Bool := (t.get? key).isSome

/-- Replaces the entry of `key` in its place, or adds one at the end. -/
def insert (t : Table α) (key : String) (a : α) : Table α :=
  ⟨Entries.put key a t.entries, Entries.nodup_keys_put key a t.nodup⟩

/-- The table of a list; a later entry replaces an earlier one of the same key. -/
def ofEntries (es : Entries α) : Table α := es.foldl (fun t e => t.insert e.1 e.2) empty

/-- The entries by ascending key. -/
def sorted (t : Table α) : Table α :=
  ⟨t.entries.mergeSort fun a b => !decide (b.1 < a.1),
    (((List.mergeSort_perm _ _).map Prod.fst).nodup_iff).mpr t.nodup⟩

theorem contains_iff_mem_keys (t : Table α) (key : String) :
    t.contains key = true ↔ key ∈ t.keys := Entries.get?_isSome_iff t.entries key

theorem get?_insert (t : Table α) (key other : String) (a : α) :
    (t.insert key a).get? other = if key = other then some a else t.get? other :=
  Entries.get?_put t.entries key other a

theorem keys_insert (t : Table α) (key : String) (a : α) :
    (t.insert key a).keys = if key ∈ t.keys then t.keys else t.keys ++ [key] :=
  Entries.keys_put t.entries key a

theorem perm_sorted (t : Table α) : t.sorted.entries.Perm t.entries := List.mergeSort_perm _ _

theorem get?_sorted (t : Table α) (key : String) : t.sorted.get? key = t.get? key := by
  refine Option.ext fun a => ?_
  rw [get?, get?, Entries.get?_eq_some_iff t.sorted.nodup, Entries.get?_eq_some_iff t.nodup]
  exact t.perm_sorted.mem_iff

theorem entries_foldl_insert (es : Entries α) (t : Table α)
    (h : (Entries.keys (t.entries ++ es)).Nodup) :
    (es.foldl (fun t e => t.insert e.1 e.2) t).entries = t.entries ++ es := by
  induction es generalizing t with
  | nil => rw [List.append_nil]; rfl
  | cons e rest ih =>
    have hnew : e.1 ∉ Entries.keys t.entries := by
      intro hmem
      rw [Entries.keys, List.map_append, List.map_cons] at h
      exact (List.nodup_append.mp h).2.2 _ hmem _ List.mem_cons_self rfl
    have hinsert : (t.insert e.1 e.2).entries = t.entries ++ [e] := Entries.put_of_not_mem hnew
    rw [List.foldl_cons, ih, hinsert, List.append_assoc]
    · rfl
    · rwa [hinsert, List.append_assoc]

theorem ofEntries_entries (t : Table α) : ofEntries t.entries = t := by
  refine ext ?_
  exact entries_foldl_insert t.entries .empty t.nodup

end Table

end BlockRobot
