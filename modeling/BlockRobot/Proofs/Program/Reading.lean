import BlockRobot.Proofs.Program.Source

/-!
# What a block depends on

The statements of a block depend on what stands in its plain fields and on what the lists that it nests
stand for, but not on these lists themselves: `SameReading.value_outlineBlock`. So a list can be exchanged
for another one that stands for the same statements (`SameReading.put_list`, `SameReading.put_clauses`).
-/

namespace BlockRobot

namespace Block

open Json (Value field?)

def array? : Value → Option (List Value)
  | .arr items => some items
  | _ => none

/-- The list under the first of the keys that has one, or else an empty list. -/
def listUnder (keys : List String) (fields : Json.Fields) : List Value :=
  (keys.findSome? fun key => (field? key fields).bind array?).getD []

/-! ## Outlines of lists -/

theorem value_outline (vs : List Value) :
    (outline vs).value = vs.flatMap fun v => (outlineBlock v).value := by
  induction vs with
  | nil => rfl
  | cons v rest ih => simp only [outline, Outline.value_bind, Outline.value_pure, List.flatMap_cons, ih]

theorem value_outlineClauses (vs : List Value) :
    (outlineClauses vs).value = vs.flatMap fun v => (outlineClause v).value.toList := by
  induction vs with
  | nil => rfl
  | cons v rest ih =>
    simp only [outlineClauses, Outline.value_bind, Outline.value_pure, List.flatMap_cons, ih]

/-- A recursion over fields that stops at the first one under `key` and reads its list is a look-up. -/
theorem eq_map_field? {β : Type} {read : Json.Fields → Option β} {f : List Value → β} {key : String}
    (hnil : read [] = none)
    (hcons : ∀ k v rest, read ((k, v) :: rest) = if k = key then (array? v).map f else read rest)
    (fields : Json.Fields) : read fields = ((field? key fields).bind array?).map f := by
  induction fields with
  | nil => exact hnil
  | cons e rest ih =>
    obtain ⟨k, v⟩ := e
    rw [hcons, field?, Entries.get?]
    split
    · rfl
    · exact ih

theorem outlineUnder?_eq (key : String) (fields : Json.Fields) :
    outlineUnder? key fields = ((field? key fields).bind array?).map outline :=
  eq_map_field? rfl (fun _ v _ => by cases v <;> rfl) fields

theorem outlineClausesUnder?_eq (key : String) (fields : Json.Fields) :
    outlineClausesUnder? key fields = ((field? key fields).bind array?).map outlineClauses :=
  eq_map_field? rfl (fun _ v _ => by cases v <;> rfl) fields

theorem getD_listUnder {β : Type} (f : List Value → β) (a b : String) (fields : Json.Fields) :
    (((field? a fields).bind array?).map f <|> ((field? b fields).bind array?).map f).getD (f []) =
      f (listUnder [a, b] fields) := by
  cases ha : (field? a fields).bind array? with
  | some items => simp [listUnder, ha]
  | none =>
    cases hb : (field? b fields).bind array? with
    | some items => simp [listUnder, ha, hb]
    | none => simp [listUnder, ha, hb]

theorem orNone_outlineUnder (a b : String) (fields : Json.Fields) :
    orNone (outlineUnder? a fields <|> outlineUnder? b fields) = outline (listUnder [a, b] fields) := by
  rw [outlineUnder?_eq, outlineUnder?_eq]
  exact getD_listUnder outline a b fields

theorem orNone_outlineClausesUnder (a b : String) (fields : Json.Fields) :
    orNone (outlineClausesUnder? a fields <|> outlineClausesUnder? b fields) =
      outlineClauses (listUnder [a, b] fields) := by
  rw [outlineClausesUnder?_eq, outlineClausesUnder?_eq]
  exact getD_listUnder outlineClauses a b fields

/-! ## Blocks that read alike -/

/-- The plain fields are the same, and the lists stand for the same statements. -/
structure SameReading (fields fields' : Json.Fields) : Prop where
  plain : ∀ key, key ∉ listKeys → key ∉ clauseKeys → field? key fields' = field? key fields
  lists : ∀ keys, keys ⊆ listKeys →
    (outline (listUnder keys fields')).value = (outline (listUnder keys fields)).value
  clauses : (outlineClauses (listUnder clauseKeys fields')).value =
    (outlineClauses (listUnder clauseKeys fields)).value

theorem findSome?_congr {α β : Type} {f g : α → Option β} {xs : List α} (h : ∀ x ∈ xs, f x = g x) :
    xs.findSome? f = xs.findSome? g := by
  induction xs with
  | nil => rfl
  | cons x rest ih =>
    rw [List.findSome?_cons, List.findSome?_cons, h x List.mem_cons_self,
      ih fun y hy => h y (List.mem_cons_of_mem x hy)]

namespace SameReading

variable {fields fields' : Json.Fields} (h : SameReading fields fields')

include h

theorem stringUnder?_eq (keys : List String)
    (hkeys : ∀ key ∈ keys, key ∉ listKeys ∧ key ∉ clauseKeys := by decide) :
    stringUnder? keys fields' = stringUnder? keys fields := by
  have hfind : (keys.findSome? fun k => field? k fields') = keys.findSome? fun k => field? k fields :=
    findSome?_congr fun k hk => h.plain k (hkeys k hk).1 (hkeys k hk).2
  rw [stringUnder?, stringUnder?, hfind]

theorem operandValue_eq (key : String) (hkey : key ∉ listKeys ∧ key ∉ clauseKeys := by decide) :
    operandValue key fields' = operandValue key fields := by
  rw [operandValue, operandValue, h.plain key hkey.1 hkey.2]

theorem repeatValue_eq : repeatValue fields' = repeatValue fields := by
  rw [repeatValue, repeatValue, h.plain "count" (by decide) (by decide)]

theorem conditionValue_eq : conditionValue fields' = conditionValue fields := by
  rw [conditionValue, conditionValue, h.plain "condition" (by decide) (by decide)]

theorem colorsField_eq : colorsField fields' = colorsField fields := by
  rw [colorsField, colorsField, h.stringUnder?_eq ["color"], h.plain "colors" (by decide) (by decide)]

theorem value_outlineBlock : (outlineBlock (.obj fields')).value = (outlineBlock (.obj fields)).value := by
  have hbody := h.lists ["body", "bodyActions"] (by decide)
  have hthen := h.lists ["then", "thenActions"] (by decide)
  have helse := h.lists ["else", "elseActions"] (by decide)
  have hclauses : (outlineClauses (listUnder ["elseIf", "elseIfClauses"] fields')).value =
      (outlineClauses (listUnder ["elseIf", "elseIfClauses"] fields)).value := h.clauses
  simp only [outlineBlock, orNone_outlineUnder, orNone_outlineClausesUnder, h.stringUnder?_eq ["type"],
    h.stringUnder?_eq ["variable"], h.stringUnder?_eq ["functionName", "name"], h.operandValue_eq "count",
    h.operandValue_eq "from", h.operandValue_eq "to", h.operandValue_eq "step", h.repeatValue_eq,
    h.conditionValue_eq, h.colorsField_eq]
  cases stringUnder? ["type"] fields with
  | none => rfl
  | some kind =>
    -- Once the value is taken in each branch on its own, the loops that are written out are gone.
    simp only [apply_ite Outline.value]
    cases stringUnder? ["variable"] fields <;> cases conditionValue fields <;>
      simp only [Outline.value_bind, Outline.value_pure, hbody, hthen, helse, hclauses]

theorem value_outlineClause :
    (outlineClause (.obj fields')).value = (outlineClause (.obj fields)).value := by
  have hthen := h.lists ["then", "thenActions"] (by decide)
  simp only [outlineClause, orNone_outlineUnder, h.conditionValue_eq]
  cases conditionValue fields with
  | none => rfl
  | some c => simp only [Outline.value_bind, Outline.value_pure, hthen]

end SameReading

/-! ## Exchanging a list -/

variable {fields : Json.Fields} {key : String} {items items' : List Value}

theorem field?_put (key other : String) (v : Value) (fields : Json.Fields) :
    field? other (Entries.put key v fields) = if key = other then some v else field? other fields :=
  Entries.get?_put fields key other v

theorem listUnder_put_of_notMem {keys : List String} (hkey : key ∉ keys) (v : Value) :
    listUnder keys (Entries.put key v fields) = listUnder keys fields := by
  have hfind : (keys.findSome? fun k => (field? k (Entries.put key v fields)).bind array?) =
      keys.findSome? fun k => (field? k fields).bind array? :=
    findSome?_congr fun k hk => by
      rw [field?_put, if_neg]
      rintro rfl
      exact hkey hk
  rw [listUnder, listUnder, hfind]

theorem listUnder_put {β : Type} (f : List Value → β) (hitems : field? key fields = some (.arr items))
    (hf : f items' = f items) (keys : List String) :
    f (listUnder keys (Entries.put key (.arr items') fields)) = f (listUnder keys fields) := by
  unfold listUnder
  induction keys with
  | nil => rfl
  | cons k keys ih =>
    rw [List.findSome?_cons, List.findSome?_cons, field?_put]
    by_cases hk : key = k
    · subst hk
      simp only [if_true, hitems, Option.bind_some, array?, Option.getD_some]
      exact hf
    · rw [if_neg hk]
      cases (field? k fields).bind array? with
      | none => exact ih
      | some _ => rfl

theorem notMem_clauseKeys : ∀ key ∈ listKeys, key ∉ clauseKeys := by decide

theorem SameReading.put_list (hkey : key ∈ listKeys) (hitems : field? key fields = some (.arr items))
    (hvalue : (outline items').value = (outline items).value) :
    SameReading fields (Entries.put key (.arr items') fields) where
  plain other hlist _ := by
    rw [field?_put, if_neg]
    rintro rfl
    exact hlist hkey
  lists keys _ := listUnder_put (fun vs => (outline vs).value) hitems hvalue keys
  clauses := by rw [listUnder_put_of_notMem (notMem_clauseKeys key hkey)]

theorem SameReading.put_clauses (hkey : key ∈ clauseKeys)
    (hitems : field? key fields = some (.arr items))
    (hvalue : (outlineClauses items').value = (outlineClauses items).value) :
    SameReading fields (Entries.put key (.arr items') fields) where
  plain other _ hclause := by
    rw [field?_put, if_neg]
    rintro rfl
    exact hclause hkey
  lists keys hkeys := by
    rw [listUnder_put_of_notMem fun hmem => notMem_clauseKeys key (hkeys hmem) hkey]
  clauses := listUnder_put (fun vs => (outlineClauses vs).value) hitems hvalue clauseKeys

end Block

end BlockRobot
