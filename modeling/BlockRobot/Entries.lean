/-!
# Lists of named entries

The first entry of a name counts. Main statements: `get?_put` and `keys_put`.
-/

namespace BlockRobot

abbrev Entries (α : Type) := List (String × α)

namespace Entries

variable {α : Type}

def keys (es : Entries α) : List String := es.map Prod.fst

def get? (key : String) : Entries α → Option α
  | [] => none
  | (k, a) :: rest => if k = key then some a else get? key rest

/-- Replaces the entry of `key` in its place, or adds one at the end. -/
def put (key : String) (a : α) : Entries α → Entries α
  | [] => [(key, a)]
  | (k, b) :: rest => if k = key then (k, a) :: rest else (k, b) :: put key a rest

theorem get?_put (es : Entries α) (key other : String) (a : α) :
    get? other (put key a es) = if key = other then some a else get? other es := by
  induction es with
  | nil => by_cases h : key = other <;> simp [put, get?, h]
  | cons e rest ih =>
    obtain ⟨k, b⟩ := e
    by_cases hk : k = key
    · subst hk; by_cases h : k = other <;> simp [put, get?, h]
    · by_cases h : k = other
      · subst h; simp [put, get?, hk, Ne.symm hk]
      · simp [put, get?, hk, h, ih]

theorem get?_isSome_iff (es : Entries α) (key : String) :
    (get? key es).isSome = true ↔ key ∈ keys es := by
  induction es with
  | nil => simp [get?, keys]
  | cons e rest ih =>
    obtain ⟨k, b⟩ := e
    by_cases h : k = key
    · simp [get?, keys, h]
    · simp only [get?, h, if_false, keys, List.map_cons, List.mem_cons] at ih ⊢
      simpa [Ne.symm h] using ih

theorem mem_put {es : Entries α} {key : String} {a : α} {e : String × α}
    (h : e ∈ put key a es) : e = (key, a) ∨ e ∈ es := by
  induction es with
  | nil => exact .inl (List.mem_singleton.mp h)
  | cons f rest ih =>
    obtain ⟨k, b⟩ := f
    by_cases hk : k = key
    · simp only [put, hk, if_true, List.mem_cons] at h
      exact h.imp_right (List.mem_cons_of_mem _)
    · simp only [put, hk, if_false, List.mem_cons] at h
      rcases h with rfl | h
      · exact .inr List.mem_cons_self
      · exact (ih h).imp_right (List.mem_cons_of_mem _)

theorem mem_of_get? {es : Entries α} {key : String} {a : α} (h : get? key es = some a) :
    (key, a) ∈ es := by
  induction es with
  | nil => cases h
  | cons e rest ih =>
    obtain ⟨k, b⟩ := e
    by_cases hk : k = key
    · simp only [get?, hk, if_true, Option.some.injEq] at h
      rw [hk, h]
      exact List.mem_cons_self
    · simp only [get?, hk, if_false] at h
      exact List.mem_cons_of_mem _ (ih h)

theorem keys_put (es : Entries α) (key : String) (a : α) :
    keys (put key a es) = if key ∈ keys es then keys es else keys es ++ [key] := by
  induction es with
  | nil => simp [put, keys]
  | cons e rest ih =>
    obtain ⟨k, b⟩ := e
    by_cases hk : k = key
    · simp [put, keys, hk]
    · simp only [put, hk, if_false, keys, List.map_cons, List.mem_cons, Ne.symm hk, false_or] at ih ⊢
      by_cases hm : key ∈ List.map Prod.fst rest <;> simp [ih, hm]

theorem nodup_keys_put {es : Entries α} (key : String) (a : α) (h : (keys es).Nodup) :
    (keys (put key a es)).Nodup := by
  rw [keys_put]
  split
  · exact h
  · next hk =>
    refine List.nodup_append.mpr ⟨h, by simp, ?_⟩
    intro x hx y hy
    rw [List.mem_singleton] at hy
    exact fun e => hk (hy ▸ e ▸ hx)

theorem get?_eq_some_iff {es : Entries α} (h : (keys es).Nodup) {key : String} {a : α} :
    get? key es = some a ↔ (key, a) ∈ es := by
  refine ⟨mem_of_get?, fun hmem => ?_⟩
  induction es with
  | nil => cases hmem
  | cons e rest ih =>
    obtain ⟨k, b⟩ := e
    obtain ⟨hk, hrest⟩ := List.nodup_cons.mp h
    rcases List.mem_cons.mp hmem with heq | hmem
    · cases heq
      simp only [get?, if_true]
    · have hne : k ≠ key := by
        rintro rfl
        exact hk (List.mem_map.mpr ⟨_, hmem, rfl⟩)
      simp only [get?, hne, if_false]
      exact ih hrest hmem

theorem put_of_not_mem {es : Entries α} {key : String} {a : α} (h : key ∉ keys es) :
    put key a es = es ++ [(key, a)] := by
  induction es with
  | nil => rfl
  | cons e rest ih =>
    obtain ⟨hne, hrest⟩ := List.ne_and_not_mem_of_not_mem_cons h
    obtain ⟨k, b⟩ := e
    simp only [put, Ne.symm hne, if_false, ih hrest, List.cons_append]

end Entries

end BlockRobot
