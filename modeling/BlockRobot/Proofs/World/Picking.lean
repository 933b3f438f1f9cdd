import BlockRobot.Proofs.World.Effects
import Mathlib.Data.List.Nodup

/-!
# Picking items up

A statement that collects takes the items of the robot's tile in a fixed order: color by color as its
colors are listed, and items of one color as they stand in the world (`World.pickOrder`). One action takes
the first of them and leaves the others in their order: `apply_collect`.
-/

namespace BlockRobot

namespace World

/-- The places of the items that can be collected on the robot's tile, of one color if one is given. -/
def placesOf (w : World) (color : Option String) : List Nat :=
  (List.range w.items.length).filter fun j => w.items[j]?.any (isWanted w.robot.position color)

/-- The places of the items that can be collected on the robot's tile, in the order in which they are
taken. -/
def pickOrder (w : World) (colors : List String) : List Nat :=
  if colors.isEmpty then w.placesOf none else colors.flatMap fun c => w.placesOf (some c)

def takeAt (w : World) (j : Nat) : World :=
  match w.items[j]? with
  | some i =>
    { w with
      items := w.items.set j { i with available := false }
      inventory := { w.inventory with collected := w.inventory.collected.bump i.color } }
  | none => w

def pick (w : World) (js : List Nat) : World := js.foldl takeAt w

variable {w : World} {color : Option String} {colors : List String} {j : Nat} {rest : List Nat}

/-! ## Places -/

theorem mem_placesOf :
    j ∈ w.placesOf color ↔ ∃ i, w.items[j]? = some i ∧ isWanted w.robot.position color i = true := by
  simp only [placesOf, List.mem_filter, List.mem_range, Option.any_eq_true]
  constructor
  · rintro ⟨-, i, hi, hwanted⟩
    exact ⟨i, hi, hwanted⟩
  · rintro ⟨i, hi, hwanted⟩
    exact ⟨(List.getElem?_eq_some_iff.mp hi).1, i, hi, hwanted⟩

theorem pairwise_placesOf (w : World) (color : Option String) :
    (w.placesOf color).Pairwise (· < ·) :=
  List.pairwise_lt_range.filter _

theorem mem_pickOrder :
    j ∈ w.pickOrder colors ↔ ∃ i, w.items[j]? = some i ∧ i.available = true ∧
      i.position = w.robot.position ∧ (colors = [] ∨ i.color ∈ colors) := by
  cases colors with
  | nil => simp [pickOrder, mem_placesOf, Action.isWanted_iff]
  | cons c cs =>
    simp only [pickOrder, List.isEmpty_cons, Bool.false_eq_true, if_false, List.mem_flatMap, mem_placesOf,
      Action.isWanted_iff, Option.some.injEq, reduceCtorEq, false_or]
    constructor
    · rintro ⟨c, hc, i, hi, hav, hpos, hcolor⟩
      exact ⟨i, hi, hav, hpos, hcolor c rfl ▸ hc⟩
    · rintro ⟨i, hi, hav, hpos, hcolor⟩
      exact ⟨i.color, hcolor, i, hi, hav, hpos, fun _ h => h⟩

theorem nodup_pickOrder (w : World) (h : colors.Nodup) : (w.pickOrder colors).Nodup := by
  have hplaces (color : Option String) : (w.placesOf color).Nodup :=
    (pairwise_placesOf w color).imp fun h => Nat.ne_of_lt h
  unfold pickOrder
  split
  · exact hplaces none
  · refine List.nodup_flatMap.mpr ⟨fun c _ => hplaces (some c), h.imp fun {c d} hcd => ?_⟩
    -- An item has one color.
    intro j hc hd
    obtain ⟨i, hi, hwanted⟩ := mem_placesOf.mp hc
    obtain ⟨i', hi', hwanted'⟩ := mem_placesOf.mp hd
    obtain rfl : i = i' := Option.some.inj (hi.symm.trans hi')
    have hcolor := (Action.isWanted_iff.mp hwanted).2.2 c rfl
    exact hcd (hcolor.symm.trans ((Action.isWanted_iff.mp hwanted').2.2 d rfl))

/-! ## How many there are -/

theorem length_filter_range {α : Type} (p : α → Bool) (xs : List α) :
    ((List.range xs.length).filter fun j => xs[j]?.any p).length = xs.countP p := by
  induction xs with
  | nil => rfl
  | cons x rest ih =>
    have htail : ((List.range rest.length).map Nat.succ).filter (fun j => (x :: rest)[j]?.any p) =
        ((List.range rest.length).filter fun j => rest[j]?.any p).map Nat.succ := by
      rw [List.filter_map]
      rfl
    rw [List.length_cons, List.range_succ_eq_map, List.filter_cons, htail, List.countP_cons, ← ih]
    cases hx : p x <;> simp [hx]

theorem count_foldl_add (colors : List String) (t : Tile) :
    (colors.foldl Tile.add t).count = t.count + colors.length := by
  induction colors generalizing t with
  | nil => rfl
  | cons c rest ih =>
    rw [List.foldl_cons, ih, List.length_cons, Nat.add_comm rest.length 1, ← Nat.add_assoc]
    rfl

theorem length_placesOf_none (w : World) : (w.placesOf none).length = w.here.count := by
  rw [placesOf, length_filter_range, here, tileAt_eq, count_foldl_add, colorsOn, List.length_map,
    ← List.countP_eq_length_filter, Tile.empty, Nat.zero_add]
  exact List.countP_congr fun i _ => by simp [isWanted]

theorem length_placesOf_some (w : World) (c : String) :
    (w.placesOf (some c)).length = w.here.countOf c := by
  rw [placesOf, length_filter_range, here, countOf_tileAt, colorsOn, List.count, List.countP_map,
    List.countP_filter]
  exact List.countP_congr fun i _ => by simp [isWanted, and_comm]

theorem length_pickOrder (w : World) (colors : List String) :
    (w.pickOrder colors).length = w.here.matching colors := by
  have hcolors (colors : List String) :
      (colors.flatMap fun c => w.placesOf (some c)).length = sumOver w.here.countOf colors := by
    induction colors with
    | nil => rfl
    | cons c rest ih => rw [List.flatMap_cons, List.length_append, length_placesOf_some, sumOver, ih]
  unfold pickOrder Tile.matching
  split
  · exact length_placesOf_none w
  · exact hcolors colors

/-! ## Taking an item -/

theorem placesOf_takeAt (w : World) (color : Option String) (j : Nat) :
    (w.takeAt j).placesOf color = (w.placesOf color).filter (· ≠ j) := by
  cases hj : w.items[j]? with
  | none =>
    have hself : w.takeAt j = w := by simp only [takeAt, hj]
    rw [hself]
    refine (List.filter_eq_self.mpr fun k hk => ?_).symm
    obtain ⟨i, hi, -⟩ := mem_placesOf.mp hk
    simp only [ne_eq, decide_not, Bool.not_eq_true', decide_eq_false_iff_not]
    rintro rfl
    rw [hj] at hi
    cases hi
  | some i =>
    simp only [placesOf, takeAt, hj, List.length_set, List.filter_filter]
    refine List.filter_congr fun k _ => ?_
    by_cases hk : k = j
    · subst hk
      have hlt := (List.getElem?_eq_some_iff.mp hj).1
      rw [List.getElem?_set_self hlt]
      simp [isWanted]
    · rw [List.getElem?_set_ne (Ne.symm hk)]
      simp [hk]

theorem pickOrder_takeAt (w : World) (colors : List String) (j : Nat) :
    (w.takeAt j).pickOrder colors = (w.pickOrder colors).filter (· ≠ j) := by
  unfold pickOrder
  split
  · exact placesOf_takeAt w none j
  · rw [List.filter_flatMap]
    exact congrArg (List.flatMap · colors) (funext fun c => placesOf_takeAt w (some c) j)

theorem collect_eq (h : w.placesOf color = j :: rest) :
    (w.collect color).map Prod.snd = .ok (w.takeAt j) := by
  obtain ⟨i, hi, hwanted⟩ := mem_placesOf.mp (h ▸ List.mem_cons_self)
  have hbefore : ∀ i' ∈ w.items.take j, isWanted w.robot.position color i' = false := by
    intro i' hi'
    obtain ⟨k, hk⟩ := List.mem_iff_getElem?.mp hi'
    obtain ⟨hlt, hk⟩ : k < j ∧ w.items[k]? = some i' := by
      rw [List.getElem?_take] at hk
      split at hk
      · next hlt => exact ⟨hlt, hk⟩
      · cases hk
    refine Bool.eq_false_iff.mpr fun hw => ?_
    have hmem : k ∈ j :: rest := h ▸ mem_placesOf.mpr ⟨i', hk, hw⟩
    have hpairwise := h ▸ pairwise_placesOf w color
    rcases List.mem_cons.mp hmem with rfl | hmem
    · exact Nat.lt_irrefl k hlt
    · exact Nat.lt_asymm hlt ((List.pairwise_cons.mp hpairwise).1 k hmem)
  obtain ⟨hlt, hget⟩ := List.getElem?_eq_some_iff.mp hi
  have hitems : w.items = w.items.take j ++ i :: w.items.drop (j + 1) := by
    rw [← hget, ← List.drop_eq_getElem_cons hlt, List.take_append_drop]
  have htake : takeFirst (isWanted w.robot.position color) w.items =
      some (i.color, w.items.set j { i with available := false }) := by
    rw [List.set_eq_take_append_cons_drop, if_pos hlt]
    conv => lhs; rw [hitems]
    exact takeFirst_of_first hbefore hwanted
  simp only [collect, htake, takeAt, hi]
  rfl

theorem choose_eq (h : w.pickOrder colors = j :: rest) :
    ∃ rest', w.placesOf (Action.choose w.here colors) = j :: rest' := by
  cases colors with
  | nil => exact ⟨rest, h⟩
  | cons c cs =>
    have hfind : ∀ colors : List String, colors.flatMap (fun c => w.placesOf (some c)) = j :: rest →
        ∃ c rest', colors.find? (fun c => decide (0 < w.here.countOf c)) = some c ∧
          w.placesOf (some c) = j :: rest' := by
      intro colors hcolors
      induction colors with
      | nil => cases hcolors
      | cons c cs ih =>
        rw [List.flatMap_cons] at hcolors
        rw [List.find?_cons, ← length_placesOf_some]
        cases hplaces : w.placesOf (some c) with
        | nil =>
          rw [hplaces, List.nil_append] at hcolors
          exact ih hcolors
        | cons k ks =>
          rw [hplaces, List.cons_append] at hcolors
          exact ⟨c, ks, rfl, by rw [hplaces, (List.cons.inj hcolors).1]⟩
    obtain ⟨d, rest', hd, hplaces⟩ := hfind (c :: cs) h
    exact ⟨rest', by rw [Action.choose, hd]; exact hplaces⟩

theorem apply_collect (hcolors : colors.Nodup) (h : w.pickOrder colors = j :: rest) :
    Action.apply (.collect colors) w = .ok (w.takeAt j) ∧ (w.takeAt j).pickOrder colors = rest := by
  have hnodup := nodup_pickOrder w hcolors
  obtain ⟨rest', hrest'⟩ := choose_eq h
  refine ⟨collect_eq hrest', ?_⟩
  rw [h] at hnodup
  rw [pickOrder_takeAt, h, List.filter_cons_of_neg (by simp)]
  refine List.filter_eq_self.mpr fun k hk => ?_
  simp only [ne_eq, decide_not, Bool.not_eq_true', decide_eq_false_iff_not]
  rintro rfl
  exact (List.nodup_cons.mp hnodup).1 hk

/-! ## Taking several items -/

theorem getElem?_takeAt (w : World) (j k : Nat) :
    (w.takeAt j).items[k]? =
      w.items[k]?.map fun i => if k = j then { i with available := false } else i := by
  unfold takeAt
  split
  · next i hi =>
    by_cases hk : k = j
    · subst hk
      rw [List.getElem?_set_self (List.getElem?_eq_some_iff.mp hi).1, hi]
      simp
    · rw [List.getElem?_set_ne (Ne.symm hk)]
      simp [hk]
  · next hj =>
    by_cases hk : k = j
    · subst hk
      rw [hj]
      rfl
    · simp [hk]

/-- The items that are picked up are those at the given places, and no others. -/
theorem getElem?_pick (w : World) (js : List Nat) (k : Nat) :
    (w.pick js).items[k]? =
      w.items[k]?.map fun i => if k ∈ js then { i with available := false } else i := by
  induction js generalizing w with
  | nil => simp [pick]
  | cons j rest ih =>
    change ((w.takeAt j).pick rest).items[k]? = _
    rw [ih, getElem?_takeAt, Option.map_map]
    congr 1
    funext i
    by_cases hj : k = j <;> by_cases hrest : k ∈ rest <;> simp [hj, hrest]

theorem takeAt_frame (w : World) (j : Nat) :
    ∃ items collected, w.takeAt j =
      { w with items := items, inventory := { w.inventory with collected := collected } } := by
  unfold takeAt
  split
  · exact ⟨_, _, rfl⟩
  · exact ⟨w.items, w.inventory.collected, rfl⟩

theorem pick_frame (w : World) (js : List Nat) :
    ∃ items collected, w.pick js =
      { w with items := items, inventory := { w.inventory with collected := collected } } := by
  induction js generalizing w with
  | nil => exact ⟨w.items, w.inventory.collected, rfl⟩
  | cons j rest ih =>
    obtain ⟨items, collected, h⟩ := takeAt_frame w j
    obtain ⟨items', collected', h'⟩ := ih (w.takeAt j)
    refine ⟨items', collected', h'.trans ?_⟩
    rw [h]

/-- After some of the items have been picked up, the others are left in their order. -/
theorem pickOrder_pick (hcolors : colors.Nodup) {n : Nat} (hn : n ≤ (w.pickOrder colors).length) :
    (w.pick ((w.pickOrder colors).take n)).pickOrder colors = (w.pickOrder colors).drop n := by
  generalize horder : w.pickOrder colors = order at hn
  induction n generalizing w order with
  | zero => exact horder
  | succ n ih =>
    cases order with
    | nil => exact absurd hn (Nat.not_succ_le_zero n)
    | cons j rest => exact ih rest (apply_collect hcolors horder).2 (Nat.le_of_succ_le_succ hn)

theorem apply_collect_pick (hcolors : colors.Nodup) {n : Nat} (hn : n < (w.pickOrder colors).length) :
    Action.apply (.collect colors) (w.pick ((w.pickOrder colors).take n)) =
      .ok (w.pick ((w.pickOrder colors).take (n + 1))) := by
  have hrest := pickOrder_pick hcolors (Nat.le_of_lt hn)
  rw [List.drop_eq_getElem_cons hn] at hrest
  rw [(apply_collect hcolors hrest).1, List.take_add_one, List.getElem?_eq_getElem hn, pick, pick,
    Option.toList_some, List.foldl_append]
  rfl

end World

end BlockRobot
