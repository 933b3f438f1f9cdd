import BlockRobot.Proofs.World.Picking
import BlockRobot.World.Sensor
import Mathlib.Data.List.Perm.Subperm

/-!
# What the sensors tell

The parts of a tile tell the same: its colors add up to the whole (`Tile.Balanced`). The names of sensors are
taken apart by endings that overlap and by names that are reserved, but a word that ends in none of them and is not
reserved is read back from each of its names: `Sensor.here_agrees`.
-/

namespace BlockRobot

/-! ## Tiles -/

namespace Tile

/-- The colors add up to the whole, and no color is listed without an item. -/
structure Balanced (t : Tile) : Prop where
  total : t.count = t.colors.total
  positive : ∀ entry ∈ t.colors.entries, 0 < entry.2

theorem Balanced.add {t : Tile} (h : t.Balanced) (color : String) : (t.add color).Balanced := by
  obtain ⟨htotal, hpositive⟩ := h
  constructor
  case total => rw [Tile.add, Tally.total_bump, ← htotal]
  case positive =>
    intro entry hentry
    rcases Entries.mem_put hentry with rfl | hentry
    · exact Nat.succ_pos _
    · exact hpositive entry hentry

theorem Balanced.addAll {t : Tile} (h : t.Balanced) (colors : List String) :
    (colors.foldl Tile.add t).Balanced := by
  induction colors generalizing t with
  | nil => exact h
  | cons c rest ih => exact ih (h.add c)

end Tile

namespace World

theorem balanced_tileAt (w : World) (p : Position) : (w.tileAt p).Balanced := by
  have hempty : Tile.empty.Balanced := ⟨rfl, fun _ h => nomatch h⟩
  rw [tileAt_eq]
  exact hempty.addAll _

/-- An item has one color, so that distinct colors count no item twice. -/
theorem matching_le_count (w : World) {colors : List String} (h : colors.Nodup) :
    w.here.matching colors ≤ w.here.count := by
  have hsubset : w.pickOrder colors ⊆ w.pickOrder [] := by
    intro j hj
    obtain ⟨i, hi, hav, hpos, -⟩ := mem_pickOrder.mp hj
    exact mem_pickOrder.mpr ⟨i, hi, hav, hpos, .inl rfl⟩
  calc w.here.matching colors = (w.pickOrder colors).length := (length_pickOrder w colors).symm
    _ ≤ (w.pickOrder []).length := (List.Nodup.subperm (nodup_pickOrder w h) hsubset).length_le
    _ = w.here.count := length_pickOrder w []

end World

/-! ## Names -/

namespace Sensor

theorem before?_append (ending : String) (cs : List Char) :
    before? ending (cs ++ ending.toList) = some cs := by
  rw [before?, List.isSuffixOf?_eq_some_iff_append_eq]

theorem before?_eq_none {ending : String} {cs : List Char} (h : ¬ ending.toList <:+ cs) :
    before? ending cs = none := by
  refine Option.eq_none_iff_forall_ne_some.mpr fun rest hrest => h ⟨rest, ?_⟩
  exact List.isSuffixOf?_eq_some_iff_append_eq.mp hrest

theorem after?_append (beginning : String) (cs : List Char) :
    after? beginning (beginning.toList ++ cs) = some cs := by
  rw [after?, List.isPrefixOf?_eq_some_iff_append_eq]

/-- A text that ends in one way does not end in another, unless one ending ends in the other. -/
theorem not_suffix_append {s t : List Char} (hst : ¬ s <:+ t) (hts : ¬ t <:+ s) (cs : List Char) :
    ¬ s <:+ cs ++ t := by
  intro h
  rcases List.suffix_or_suffix_of_suffix h (List.suffix_append cs t) with h | h
  · exact hst h
  · exact hts h

/-- A word of letters that is capitalized, and that the names of sensors do not use for anything else. -/
structure ColorWord (word : String) : Prop where
  letters : word.toList.all Text.isLetter = true
  capitalized : isCapitalized word.toList = true
  notBattery : ¬ "Battery".toList <:+ word.toList
  notItem : ¬ "Item".toList <:+ word.toList
  notItemHere : word ≠ "ItemHere"
  notBatteryHere : word ≠ "BatteryHere"

theorem isCapitalized_append {word : List Char} (h : isCapitalized word = true) (cs : List Char) :
    isCapitalized (word ++ cs) = true := by
  cases word with
  | nil => cases h
  | cons c rest => exact h

def between? (beginning ending name : String) : Option (List Char) :=
  (after? beginning name.toList).bind (before? ending)

theorem between?_append (beginning word ending : String) :
    between? beginning ending (beginning ++ word ++ ending) = some word.toList := by
  rw [between?, String.toList_append, String.toList_append, List.append_assoc, after?_append,
    Option.bind_some, before?_append]

variable {word : String} {tile : Tile}

theorem ColorWord.color? (h : ColorWord word) : color? word.toList = some (Text.lower word) := by
  have hnonempty : word.toList.isEmpty = false := by
    cases hword : word.toList with
    | nil => exact nomatch hword ▸ h.capitalized
    | cons c rest => rfl
  rw [Sensor.color?, hnonempty, h.letters, String.ofList_toList]
  rfl

/-! ## Values -/

theorem ColorWord.not_total (h : ColorWord word) (ending : String) :
    totalNames.contains (word ++ ending) = false := by
  have hlower : ∀ name ∈ totalNames, isCapitalized name.toList = false := by decide
  refine Bool.eq_false_iff.mpr fun hmem => ?_
  have hname := hlower _ (List.contains_iff_mem.mp hmem)
  rw [String.toList_append, isCapitalized_append h.capitalized] at hname
  cases hname

theorem ColorWord.value? (h : ColorWord word) :
    ∀ ending ∈ ["Count", "BatteryCount"],
      value? tile (word ++ ending) = some (tile.countOf (Text.lower word)) := by
  have hword : ∀ ending ∈ ["Count", "BatteryCount"],
      (before? "BatteryCount" (word ++ ending).toList <|> before? "Count" (word ++ ending).toList) =
        some word.toList := by
    simp only [List.mem_cons, List.not_mem_nil, or_false, forall_eq_or_imp, forall_eq, String.toList_append]
    constructor
    · -- The longer ending would begin within the word.
      have hlong : ¬ "BatteryCount".toList <:+ word.toList ++ "Count".toList := fun hsuffix =>
        h.notBattery (List.suffix_append_self_iff.mp
          (show "Battery".toList ++ "Count".toList <:+ word.toList ++ "Count".toList from hsuffix))
      rw [before?_eq_none hlong, before?_append]
      rfl
    · rw [before?_append]
      rfl
  intro ending hending
  rw [Sensor.value?, h.not_total, hword ending hending]
  simp only [Bool.false_eq_true, if_false, Option.bind_eq_bind, Option.bind_some, h.color?]
  rfl

/-! ## Predicates -/

theorem ColorWord.not_anyItem (h : ColorWord word) {beginning ending : String}
    (hbeginning : beginning ∈ ["is", "has"]) (hending : ending ∈ ["", "Item", "Battery"]) :
    anyItemNames.contains (beginning ++ word ++ ending) = false := by
  have hreserved : ∀ name ∈ anyItemNames, ∀ b ∈ ["is", "has"], ∀ e ∈ ["", "Item", "Battery"],
      ∀ cs ∈ between? b e name,
        cs ∈ [[], "Item".toList, "Battery".toList, "ItemHere".toList, "BatteryHere".toList] := by
    decide
  refine Bool.eq_false_iff.mpr fun hmem => ?_
  have hword := hreserved _ (List.contains_iff_mem.mp hmem) beginning hbeginning ending hending word.toList
    (between?_append beginning word ending)
  simp only [List.mem_cons, List.not_mem_nil, or_false] at hword
  rcases hword with hword | hword | hword | hword | hword
  · exact nomatch hword ▸ h.capitalized
  · exact h.notItem (hword ▸ List.suffix_rfl)
  · exact h.notBattery (hword ▸ List.suffix_rfl)
  · exact h.notItemHere (String.toList_inj.mp hword)
  · exact h.notBatteryHere (String.toList_inj.mp hword)

theorem ColorWord.without_ending (h : ColorWord word) {ending : String}
    (hending : ending ∈ ["", "Item", "Battery"]) :
    (before? "Battery" (word ++ ending).toList <|> before? "Item" (word ++ ending).toList).getD
      (word ++ ending).toList = word.toList := by
  simp only [List.mem_cons, List.not_mem_nil, or_false] at hending
  rcases hending with rfl | rfl | rfl
  · rw [String.append_empty, before?_eq_none h.notBattery, before?_eq_none h.notItem]
    rfl
  · have hother : ¬ "Battery".toList <:+ word.toList ++ "Item".toList :=
      not_suffix_append (by decide) (by decide) word.toList
    rw [String.toList_append, before?_eq_none hother, before?_append]
    rfl
  · rw [String.toList_append, before?_append]
    rfl

theorem ColorWord.predicate? (h : ColorWord word) :
    ∀ beginning ∈ ["is", "has"], ∀ ending ∈ ["", "Item", "Battery"],
      predicate? tile (beginning ++ word ++ ending) =
        some (decide (0 < tile.countOf (Text.lower word))) := by
  have hrest : ∀ beginning ∈ ["is", "has"], ∀ ending : String,
      (after? "has" (beginning ++ word ++ ending).toList <|>
        after? "is" (beginning ++ word ++ ending).toList) = some (word ++ ending).toList := by
    simp only [List.mem_cons, List.not_mem_nil, or_false, forall_eq_or_imp, forall_eq, String.toList_append,
      List.append_assoc]
    exact ⟨fun _ => rfl, fun _ => rfl⟩
  intro beginning hbeginning ending hending
  have hcapital : isCapitalized (word ++ ending).toList = true := by
    rw [String.toList_append]
    exact isCapitalized_append h.capitalized _
  rw [Sensor.predicate?, h.not_anyItem hbeginning hending, hrest beginning hbeginning ending]
  simp only [Bool.false_eq_true, if_false, Option.bind_eq_bind, Option.bind_some, hcapital, if_true,
    h.without_ending hending, h.color?]
  rfl

/-! ## Both -/

/-- On the robot's tile the colors add up to the whole, and all names of a color tell how many items of it
there are. -/
theorem here_agrees (w : World) :
    w.here.count = w.here.colors.total ∧
    (∀ entry ∈ w.here.colors.entries, 0 < entry.2) ∧
    (∀ colors : List String, colors.Nodup → w.here.matching colors ≤ w.here.count) ∧
    ∀ word, ColorWord word →
      let n := w.here.countOf (Text.lower word)
      (∀ ending ∈ ["Count", "BatteryCount"], value? w.here (word ++ ending) = some n) ∧
      (∀ beginning ∈ ["is", "has"], ∀ ending ∈ ["", "Item", "Battery"],
        predicate? w.here (beginning ++ word ++ ending) = some (decide (0 < n))) ∧
      (0 < n → predicate? w.here "hasItem" = some true ∧
        ∃ m, value? w.here "itemCount" = some m ∧ n ≤ m) := by
  obtain ⟨htotal, hpositive⟩ : w.here.Balanced := w.balanced_tileAt w.robot.position
  refine ⟨htotal, hpositive, fun _ h => w.matching_le_count h, fun word h => ?_⟩
  intro n
  refine ⟨h.value?, h.predicate?, fun hn => ?_⟩
  have hle : n ≤ w.here.count := by
    have hone := w.matching_le_count (List.nodup_singleton (Text.lower word))
    simpa only [Tile.matching, List.isEmpty_cons, Bool.false_eq_true, if_false, sumOver, Nat.add_zero] using hone
  have hany : predicate? w.here "hasItem" = some (decide (0 < w.here.count)) := rfl
  rw [hany, decide_eq_true (Nat.lt_of_lt_of_le hn hle)]
  exact ⟨rfl, w.here.count, rfl, hle⟩

/-- Three items under the robot, two of them of a color that is not spelled in ASCII. -/
def meadow : World := ((World.new 2 1).withItems ⟨0, 0⟩ "Grün" 2).withItems ⟨0, 0⟩ "rot" 1

theorem meadow_agrees :
    ColorWord "Grün" ∧ meadow.here.countOf (Text.lower "Grün") = 2 ∧
      meadow.here.matching ["rot", "grün"] ≤ meadow.here.count ∧
      value? meadow.here "GrünCount" = some 2 ∧ value? meadow.here "GrünBatteryCount" = some 2 ∧
      predicate? meadow.here "isGrün" = some true ∧ predicate? meadow.here "hasGrünBattery" = some true ∧
      predicate? meadow.here "hasItem" = some true ∧
      ∃ m, value? meadow.here "itemCount" = some m ∧ 2 ≤ m := by
  have hword : ColorWord "Grün" :=
    ⟨by decide, by decide, by decide, by decide, by decide, by decide⟩
  obtain ⟨-, -, hmatching, hagrees⟩ := here_agrees meadow
  obtain ⟨hvalue, hpredicate, hany⟩ := hagrees "Grün" hword
  have hcount : meadow.here.countOf (Text.lower "Grün") = 2 := by decide
  rw [hcount] at hvalue hpredicate hany
  obtain ⟨hsome, htotal⟩ := hany (by decide)
  exact ⟨hword, hcount, hmatching ["rot", "grün"] (by decide), hvalue "Count" (by decide),
    hvalue "BatteryCount" (by decide), hpredicate "is" (by decide) "" (by decide),
    hpredicate "has" (by decide) "Battery" (by decide), hsome, htotal⟩

end Sensor

end BlockRobot
