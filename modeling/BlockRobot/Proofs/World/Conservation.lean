import BlockRobot.Proofs.Run.Rollback
import BlockRobot.Proofs.World.Effects
import BlockRobot.World.Codec
import Mathlib.Data.List.Forall2

/-!
# Nothing is lost in a world

Actions move boxes between the piles and the robot, and items from the map to its collection. So the
boxes of a world and the items of each color stay the same in number, whatever is tried and refused
(`Action.kept_attemptAll`), a box action touches only the tile of the robot, and counters that fit at first fit
to the end: `World.conservation`.
-/

namespace BlockRobot

/-- Whether an item may be a later state of another one: it stays in its place, and once it is taken it
stays taken. -/
structure Item.Becomes (i j : Item) : Prop where
  position : j.position = i.position
  color : j.color = i.color
  available : j.available = true → i.available = true

theorem Item.Becomes.refl (i : Item) : i.Becomes i := ⟨rfl, rfl, id⟩

theorem Item.Becomes.trans {i j k : Item} (h : i.Becomes j) (h' : j.Becomes k) : i.Becomes k :=
  ⟨h'.position.trans h.position, h'.color.trans h.color, fun hk => h.available (h'.available hk)⟩

namespace World

def boxes (w : World) : Nat := sumOver Pile.count w.piles + w.inventory.boxesCarried

/-- All items of a color, available or collected. -/
def itemsOf (w : World) (color : String) : Nat :=
  w.itemsRemaining (some color) + w.inventory.collected.of color

/-- What a later world has in common with an earlier one. -/
structure Kept (w w' : World) : Prop where
  boxes : w'.boxes = w.boxes
  itemsOf : ∀ color, w'.itemsOf color = w.itemsOf color
  items : List.Forall₂ Item.Becomes w.items w'.items

theorem Kept.refl (w : World) : Kept w w :=
  ⟨rfl, fun _ => rfl, List.forall₂_same.mpr fun i _ => .refl i⟩

theorem forall₂_becomes_trans {is js ks : List Item} (h : List.Forall₂ Item.Becomes is js)
    (h' : List.Forall₂ Item.Becomes js ks) : List.Forall₂ Item.Becomes is ks := by
  induction h generalizing ks with
  | nil => exact h'
  | cons hij _ ih =>
    cases h' with
    | cons hjk hrest => exact .cons (hij.trans hjk) (ih hrest)

theorem Kept.trans {w w₁ w₂ : World} (h : Kept w w₁) (h' : Kept w₁ w₂) : Kept w w₂ :=
  ⟨h'.boxes.trans h.boxes, fun color => (h'.itemsOf color).trans (h.itemsOf color),
    forall₂_becomes_trans h.items h'.items⟩

/-! ## Piles and items, one of them changed -/

theorem sumOver_changed (before after : List Pile) (s : Pile) (n : Nat) :
    sumOver Pile.count (before ++ { s with count := n } :: after) + s.count =
      sumOver Pile.count (before ++ s :: after) + n := by
  simp only [sumOver_append, sumOver]
  omega

def boxesOn (p : Position) (piles : List Pile) : Nat :=
  sumOver Pile.count (piles.filter fun s => s.position = p)

theorem boxesOn_append (p : Position) (piles piles' : List Pile) :
    boxesOn p (piles ++ piles') = boxesOn p piles + boxesOn p piles' := by
  rw [boxesOn, List.filter_append, sumOver_append]
  rfl

theorem boxesOn_cons (p : Position) (s : Pile) (piles : List Pile) :
    boxesOn p (s :: piles) = (if s.position = p then s.count else 0) + boxesOn p piles := by
  by_cases h : s.position = p
  · simp [boxesOn, h, sumOver]
  · simp [boxesOn, h]

theorem boxesOn_eq_zero_iff {p : Position} {piles : List Pile} :
    boxesOn p piles = 0 ↔ ∀ s ∈ piles, s.position = p → s.count = 0 := by
  induction piles with
  | nil => simp [boxesOn, sumOver]
  | cons s rest ih =>
    rw [boxesOn_cons, Nat.add_eq_zero_iff, ih, List.forall_mem_cons]
    simp

theorem boxesOn_changed (before after : List Pile) (s : Pile) (n : Nat) (p : Position) :
    boxesOn p (before ++ { s with count := n } :: after) + (if s.position = p then s.count else 0) =
      boxesOn p (before ++ s :: after) + if s.position = p then n else 0 := by
  simp only [boxesOn_append, boxesOn_cons]
  omega

theorem becomes_taken (before after : List Item) (i : Item) :
    List.Forall₂ Item.Becomes (before ++ i :: after)
      (before ++ { i with available := false } :: after) := by
  refine List.rel_append (List.forall₂_same.mpr fun j _ => .refl j) (.cons ?_ ?_)
  · exact ⟨rfl, rfl, fun h => by cases h⟩
  · exact List.forall₂_same.mpr fun j _ => .refl j

theorem itemsOf_collected {w : World} {before after : List Item} {i : Item}
    (hitems : w.items = before ++ i :: after) (hi : i.available = true) (color : String) :
    { w with
      items := before ++ { i with available := false } :: after
      inventory := { w.inventory with
        collected := w.inventory.collected.bump i.color } }.itemsOf color = w.itemsOf color := by
  simp only [itemsOf, itemsRemaining, hitems, List.countP_append, List.countP_cons, Tally.of_bump]
  by_cases h : i.color = color
  · simp [hi, h]
    omega
  · simp [h]

end World

/-! ## One action -/

namespace Action

open World (isWanted Kept boxesOn)

variable {a : Action} {w w' : World}

theorem Effect.kept (h : Effect w a (.ok w')) : Kept w w' := by
  have hsame {w' : World} (hpiles : w'.piles = w.piles) (hitems : w'.items = w.items)
      (hinventory : w'.inventory = w.inventory) : Kept w w' := by
    refine ⟨?_, fun color => ?_, ?_⟩
    · rw [World.boxes, World.boxes, hpiles, hinventory]
    · simp only [World.itemsOf, World.itemsRemaining, hitems, hinventory]
    · rw [hitems]
      exact (Kept.refl w).items
  cases h with
  | moved | turnedLeft | turnedRight | turnedBack => exact hsame rfl rfl rfl
  | @collected _ before after i items wanted _ =>
    have hi : i.available = true := by
      simp only [isWanted, Bool.and_eq_true] at wanted
      exact wanted.1.1
    refine ⟨rfl, fun color => World.itemsOf_collected items hi color, ?_⟩
    rw [items]
    exact World.becomes_taken before after i
  | @took before after s piles _ filled _ =>
    refine ⟨?_, fun _ => rfl, (Kept.refl w).items⟩
    have hsum := World.sumOver_changed before after s (s.count - 1)
    simp only [World.boxes, piles]
    omega
  | @put before after s carries piles _ _ =>
    refine ⟨?_, fun _ => rfl, (Kept.refl w).items⟩
    have hsum := World.sumOver_changed before after s (s.count + 1)
    simp only [World.boxes, piles]
    omega
  | putDown carries _ =>
    refine ⟨?_, fun _ => rfl, (Kept.refl w).items⟩
    simp only [World.boxes, sumOver_append, sumOver]
    omega

theorem Effect.boxesPlaced (h : Effect w a (.ok w')) :
    w'.inventory.boxesPlaced = w.inventory.boxesPlaced + if a = .putBox then 1 else 0 := by
  cases h <;> rfl

theorem boxesAt_takeBox (h : Action.apply .takeBox w = .ok w') (p : Position) :
    w'.boxesAt p + (if p = w.robot.position then 1 else 0) = w.boxesAt p := by
  cases Effect.of_eq h with
  | @took before after s piles here filled _ =>
    have hpile := World.boxesOn_changed before after s (s.count - 1) p
    change boxesOn p _ + _ = boxesOn p w.piles
    rw [piles]
    by_cases hp : p = w.robot.position
    · simp only [here, hp, if_true] at hpile ⊢
      omega
    · simp only [here, hp, Ne.symm hp, if_false] at hpile ⊢
      omega

theorem boxesAt_putBox (h : Action.apply .putBox w = .ok w') (p : Position) :
    w'.boxesAt p = w.boxesAt p + if p = w.robot.position then 1 else 0 := by
  cases Effect.of_eq h with
  | @put before after s _ piles here _ =>
    have hpile := World.boxesOn_changed before after s (s.count + 1) p
    change boxesOn p _ = boxesOn p w.piles + _
    rw [piles]
    by_cases hp : p = w.robot.position
    · simp only [here, hp, if_true] at hpile ⊢
      omega
    · simp only [here, hp, Ne.symm hp, if_false] at hpile ⊢
      omega
  | putDown =>
    change boxesOn p _ = boxesOn p w.piles + _
    rw [World.boxesOn_append, World.boxesOn_cons]
    by_cases hp : p = w.robot.position
    · simp [hp, boxesOn, sumOver]
    · simp [hp, Ne.symm hp, boxesOn, sumOver]

/-! ## Refusals -/

theorem takeBox_refused_iff :
    (∃ r, Action.apply .takeBox w = .error r) ↔ w.boxesAt w.robot.position = 0 := by
  change _ ↔ boxesOn _ _ = 0
  rw [World.boxesOn_eq_zero_iff]
  constructor
  · rintro ⟨r, h⟩
    cases Effect.of_eq h with
    | nothingThere empty => exact empty
  · intro hempty
    have h := apply_effect .takeBox w
    generalize Action.apply .takeBox w = r at h ⊢
    cases h with
    | took piles here filled =>
      have := hempty _ (piles ▸ List.mem_append_right _ List.mem_cons_self) here
      omega
    | nothingThere => exact ⟨_, rfl⟩

theorem putBox_refused_iff :
    (∃ r, Action.apply .putBox w = .error r) ↔ w.inventory.boxesCarried = 0 := by
  have h := apply_effect .putBox w
  generalize Action.apply .putBox w = r at h ⊢
  cases h with
  | put carries => simp [carries]
  | putDown carries => simp [carries]
  | nothingCarried carries => simp [carries]

theorem exists_chosen_iff (colors : List String) :
    (∃ i ∈ w.items, isWanted w.robot.position (choose w.here colors) i = true) ↔
      ∃ i ∈ w.items, i.available = true ∧ i.position = w.robot.position ∧
        (colors = [] ∨ i.color ∈ colors) := by
  have hcount (c : String) : 0 < w.here.countOf c ↔ c ∈ World.colorsOn w.robot.position w.items := by
    rw [World.here, World.countOf_tileAt, List.count_pos_iff]
  cases hfind : colors.find? (fun c => decide (0 < w.here.countOf c)) with
  | some c =>
    have hc : c ∈ colors := List.mem_of_find?_eq_some hfind
    have hhere : 0 < w.here.countOf c := by simpa using List.find?_some hfind
    obtain ⟨i, hi, hav, hpos, rfl⟩ := World.mem_colorsOn.mp ((hcount c).mp hhere)
    have hchoose : choose w.here colors = some i.color := by simp [choose, hfind]
    constructor
    · intro _
      exact ⟨i, hi, hav, hpos, .inr hc⟩
    · intro _
      refine ⟨i, hi, isWanted_iff.mpr ⟨hav, hpos, fun c hc => ?_⟩⟩
      exact Option.some.inj (hchoose.symm.trans hc)
  | none =>
    -- None of the colors is there, so the first one is asked for in vain.
    have habsent : ∀ c ∈ colors, c ∉ World.colorsOn w.robot.position w.items := by
      intro c hc hmem
      have := List.find?_eq_none.mp hfind c hc
      exact this (by simpa using (hcount c).mpr hmem)
    have hchoose : choose w.here colors = colors.head? := by simp [choose, hfind]
    rw [hchoose]
    cases colors with
    | nil => simp [isWanted_iff]
    | cons d rest =>
      constructor
      · rintro ⟨i, hi, hwanted⟩
        obtain ⟨hav, hpos, hcolor⟩ := isWanted_iff.mp hwanted
        exact absurd (World.mem_colorsOn.mpr ⟨i, hi, hav, hpos, hcolor d rfl⟩)
          (habsent d List.mem_cons_self)
      · rintro ⟨i, hi, hav, hpos, hnil | hmem⟩
        · cases hnil
        · exact absurd (World.mem_colorsOn.mpr ⟨i, hi, hav, hpos, rfl⟩) (habsent _ hmem)

theorem collect_refused_iff (colors : List String) :
    (∃ r, Action.apply (.collect colors) w = .error r) ↔
      ¬ ∃ i ∈ w.items, i.available = true ∧ i.position = w.robot.position ∧
        (colors = [] ∨ i.color ∈ colors) := by
  rw [← exists_chosen_iff]
  have h := apply_effect (.collect colors) w
  generalize Action.apply (.collect colors) w = r at h ⊢
  cases h with
  | collected items wanted =>
    have hmem := items ▸ List.mem_append_right _ List.mem_cons_self
    simpa using ⟨_, hmem, wanted⟩
  | nothingWanted unwanted => simpa using unwanted

/-! ## Any actions -/

def attemptAll (as : List Action) (w : World) : World := as.foldl (fun w a => w.attempt (a.apply w)) w

theorem kept_attempt (a : Action) (w : World) : Kept w (w.attempt (a.apply w)) := by
  cases h : a.apply w with
  | ok w' => exact (Effect.of_eq h).kept
  | error r => exact Kept.refl w

theorem kept_attemptAll (as : List Action) (w : World) : Kept w (attemptAll as w) := by
  induction as generalizing w with
  | nil => exact Kept.refl w
  | cons a as ih => exact (kept_attempt a w).trans (ih _)

end Action

/-! ## Runs -/

namespace Machine

theorem perform_act_world (program : Program) (m : Machine) (w : World) (a : Action) :
    (m.perform program w (.act a)).2.2 = w.attempt (a.apply w) := by
  simp only [perform]
  cases a.apply w <;> rfl

theorem worldAfter_invariant {I : World → Prop}
    (hI : ∀ (a : Action) (w w' : World), a.apply w = .ok w' → I w → I w') (program : Program) (n : Nat)
    (m : Machine) (w : World) (hw : I w) : I (worldAfter program n m w) := by
  induction n generalizing m w with
  | zero => exact hw
  | succ n ih =>
    rcases advance_cases program m w with ⟨a, m₁, w₁, hadv, _, happ⟩ | ⟨f?, m₁, m₂, hadv, _, _⟩
    · simp only [worldAfter, hadv]
      exact ih m₁ w₁ (hI a w w₁ happ hw)
    · cases f? <;> simpa only [worldAfter, hadv, stopOf] using hw

end Machine

namespace World

/-- Whether no counter of boxes or items is beyond the range of tallies. -/
structure CountersFit (w : World) : Prop where
  piles : ∀ s ∈ w.piles, s.count ≤ maxTally
  carried : w.inventory.boxesCarried ≤ maxTally
  collected : ∀ color, w.inventory.collected.of color ≤ maxTally

theorem Kept.countersFit {w w' : World} (h : Kept w w') (hboxes : w.boxes ≤ maxTally)
    (hitems : ∀ color, w.itemsOf color ≤ maxTally) : w'.CountersFit := by
  have hb := h.boxes
  simp only [World.boxes] at hb hboxes
  refine ⟨fun s hs => ?_, by omega, fun color => ?_⟩
  · have := le_sumOver Pile.count hs
    omega
  · have hi := h.itemsOf color
    have := hitems color
    simp only [World.itemsOf] at hi this
    omega

/-- The laws of boxes and items, from any world and for any actions. -/
theorem conservation (w : World) :
    (∀ as : List Action, Kept w (Action.attemptAll as w)) ∧
    (∀ (a : Action) (w' : World), a.apply w = .ok w' →
      w'.inventory.boxesPlaced = w.inventory.boxesPlaced + if a = .putBox then 1 else 0) ∧
    -- A box action changes the tile of the robot, and no other.
    (∀ w', Action.apply .takeBox w = .ok w' → ∀ p,
      w'.boxesAt p + (if p = w.robot.position then 1 else 0) = w.boxesAt p) ∧
    (∀ w', Action.apply .putBox w = .ok w' → ∀ p,
      w'.boxesAt p = w.boxesAt p + if p = w.robot.position then 1 else 0) ∧
    -- When actions are refused, and that the world is then as it was.
    ((∃ r, Action.apply .takeBox w = .error r) ↔ w.boxesAt w.robot.position = 0) ∧
    ((∃ r, Action.apply .putBox w = .error r) ↔ w.inventory.boxesCarried = 0) ∧
    (∀ colors, (∃ r, Action.apply (.collect colors) w = .error r) ↔
      ¬ ∃ i ∈ w.items, i.available = true ∧ i.position = w.robot.position ∧
        (colors = [] ∨ i.color ∈ colors)) ∧
    (∀ (a : Action) (r : Refusal), a.apply w = .error r → Action.attemptAll [a] w = w ∧
      ∀ program m, (Machine.perform program m w (.act a)).2.2 = w) ∧
    -- Counters that can hold all there is never overflow.
    (w.boxes ≤ maxTally → (∀ color, w.itemsOf color ≤ maxTally) →
      (∀ as, (Action.attemptAll as w).CountersFit) ∧
      ∀ program limits n, (Machine.worldAfter program n (.new program limits) w).CountersFit) := by
  refine ⟨fun as => Action.kept_attemptAll as w, fun a w' h => (Action.Effect.of_eq h).boxesPlaced,
    fun w' h => Action.boxesAt_takeBox h, fun w' h => Action.boxesAt_putBox h,
    Action.takeBox_refused_iff, Action.putBox_refused_iff, Action.collect_refused_iff,
    fun a r h => ?_, fun hboxes hitems => ?_⟩
  · have hworld : w.attempt (a.apply w) = w := by rw [h]; rfl
    exact ⟨hworld, fun program m => (Machine.perform_act_world program m w a).trans hworld⟩
  · refine ⟨fun as => (Action.kept_attemptAll as w).countersFit hboxes hitems,
      fun program limits n => ?_⟩
    have hkept : Kept w (Machine.worldAfter program n (.new program limits) w) :=
      Machine.worldAfter_invariant (I := Kept w)
        (fun a w₁ w₂ h hw => hw.trans (Action.Effect.of_eq h).kept) program n _ w (Kept.refl w)
    exact hkept.countersFit hboxes hitems

/-- Three piles, of which an empty and a full one share the tile of the robot. -/
def yard : World :=
  (((World.new 3 1).withPile ⟨0, 0⟩ 0).withPile ⟨0, 0⟩ 2).withPile ⟨1, 0⟩ 1

def shuffle : Program :=
  ⟨"1", none, .empty, [.takeBox (.number 2), .putBox (.number 1), .forward (.number 1),
    .takeBox (.number 1)], 0, .empty, []⟩

theorem yard_conservation :
    (∃ w, Action.apply .takeBox yard = .ok w ∧ w.boxesAt ⟨0, 0⟩ + 1 = yard.boxesAt ⟨0, 0⟩ ∧
      w.boxesAt ⟨1, 0⟩ = yard.boxesAt ⟨1, 0⟩ ∧ w.inventory.boxesPlaced = yard.inventory.boxesPlaced) ∧
    (∃ r, Action.apply .putBox yard = .error r ∧ Action.attemptAll [.putBox] yard = yard) ∧
    yard.boxes ≤ maxTally ∧ (∀ color, yard.itemsOf color ≤ maxTally) ∧
    ∀ n, (Machine.worldAfter shuffle n (.new shuffle .standard) yard).CountersFit := by
  obtain ⟨_, hplaced, htake, _, _, hput, _, hrefused, hfit⟩ := conservation yard
  have hboxes : yard.boxes ≤ maxTally := by decide
  have hitems : ∀ color, yard.itemsOf color ≤ maxTally := fun color => by
    change 0 + 0 ≤ maxTally
    decide
  obtain ⟨w, hw⟩ : ∃ w, Action.apply .takeBox yard = .ok w := ⟨_, rfl⟩
  obtain ⟨r, hr⟩ := hput.mpr rfl
  exact ⟨⟨w, hw, htake w hw ⟨0, 0⟩, htake w hw ⟨1, 0⟩, hplaced _ w hw⟩, ⟨r, hr, (hrefused _ r hr).1⟩,
    hboxes, hitems, (hfit hboxes hitems).2 shuffle .standard⟩

end World

end BlockRobot
