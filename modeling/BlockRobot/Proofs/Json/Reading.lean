import BlockRobot.Proofs.Json.Doubles
import BlockRobot.Proofs.Json.Finite

/-!
# The numbers of a text

All numbers that are read from a text are finite. The reader keeps its values in the container at hand and
in those around it, and each character leaves all of them finite: `Reader.gives_push`.
-/

namespace BlockRobot.Json

/-! ## Numerals -/

namespace Numeral

/-- Whether the digits read so far fit 64 bits. -/
def Fits (n : Numeral) : Prop := n.significand ≤ maxSignificand

def Next.Fits : Next → Prop
  | .more n => n.Fits
  | _ => True

theorem Next.Fits.ite {p : Prop} [Decidable p] {x y : Next} (hx : x.Fits) (hy : y.Fits) :
    (if p then x else y).Fits := by
  split
  · exact hx
  · exact hy

variable {n : Numeral}

theorem fits_start {c : Char} (h : c = '-' ∨ c.isDigit = true) : (start c).Fits := by
  unfold start
  split
  · exact Nat.zero_le _
  · next hminus =>
    have hdigit := h.resolve_left hminus
    simp only [Char.isDigit, Bool.and_eq_true, decide_eq_true_eq] at hdigit
    have hle : c.toNat ≤ 57 := UInt32.le_iff_toNat_le.mp hdigit.2
    change c.toNat - 48 ≤ maxSignificand
    unfold maxSignificand
    omega

theorem le_of_fit? {c : Char} {m : Nat} (h : n.fit? c = some m) : m ≤ maxSignificand := by
  simp only [fit?] at h
  split at h
  · cases h
  · next hle =>
    cases h
    simp only [Bool.or_eq_true, decide_eq_true_eq, not_or, Nat.not_lt] at hle
    exact hle.2

theorem Fits.addWhole (h : n.Fits) (c : Char) : (n.addWhole c).Fits := by
  unfold Numeral.addWhole
  split
  · next hfit => exact le_of_fit? hfit
  · exact h

theorem Fits.addFraction (h : n.Fits) (c : Char) : (n.addFraction c).Fits := by
  unfold Numeral.addFraction
  split
  · next hfit => exact le_of_fit? hfit
  · exact h

theorem Fits.addExponent (h : n.Fits) (strict : Bool) (c : Char) : (n.addExponent strict c).Fits :=
  .ite trivial h

theorem Fits.push (h : n.Fits) (strict : Bool) (c : Char) : (n.push strict c).Fits := by
  simp only [Numeral.push]
  cases n.phase with
  | sign => exact .ite h (.ite (h.addWhole c) trivial)
  | zero => exact .ite trivial (.ite h (.ite h trivial))
  | whole => exact .ite (h.addWhole c) (.ite h (.ite h trivial))
  | point => exact .ite (h.addFraction c) trivial
  | fraction => exact .ite (h.addFraction c) (.ite h trivial)
  | mark => exact .ite h (.ite h (.ite (h.addExponent strict c) trivial))
  | markSign => exact .ite (h.addExponent strict c) trivial
  | exponent => exact .ite (h.addExponent strict c) trivial

theorem natAbs_of_toNumber? {i : Int} (h : n.toNumber? = some (.int i)) : i.natAbs = n.significand := by
  unfold toNumber? at h
  simp only at h
  split at h
  · next hinteger =>
    cases h
    grind
  · simp at h

/-- A double is checked when it becomes a value, and a whole number of 64 bits is finite by itself. -/
theorem Fits.isFinite_ofNumber (h : n.Fits) {number : Number} (hn : n.toNumber? = some number) :
    (Value.ofNumber number).isFinite = true := by
  cases number with
  | real x =>
    simp only [Value.ofNumber]
    split
    · next hx => exact hx
    · rfl
  | int i =>
    refine isFinite_ofInt ?_
    rw [natAbs_of_toNumber? hn]
    exact Nat.lt_of_le_of_lt h (by decide)

end Numeral

/-! ## Readers -/

def Frame.IsFinite : Frame → Prop
  | .list items => Value.allFinite items = true
  | .field members _ => Value.fieldsFinite members.fields = true

def Mode.IsFinite : Mode → Prop
  | .nextItem items | .itemEnd items => Value.allFinite items = true
  | .nextKey members | .key members _ | .colon members _ | .fieldEnd members =>
    Value.fieldsFinite members.fields = true
  | .word _ v | .ended v => v.isFinite = true
  | .number n => n.Fits
  | _ => True

namespace Reader

structure IsFinite (r : Reader) : Prop where
  mode : r.mode.IsFinite
  stack : ∀ f ∈ r.stack, f.IsFinite

/-- What a step gives, if it does not fail, satisfies `P`. -/
def Gives {α : Type} (P : α → Prop) (x : Step α) : Prop := ∀ a, x = .ok a → P a

theorem Gives.ok {α : Type} {P : α → Prop} {a : α} (h : P a) : Gives P (.ok a) := by
  intro b hb
  cases hb
  exact h

theorem Gives.error {α : Type} {P : α → Prop} (e : Fault × Nat) : Gives P (.error e) := by
  intro a ha
  cases ha

theorem Gives.ite {α : Type} {P : α → Prop} {p : Prop} [Decidable p] {x y : Step α} (hx : Gives P x)
    (hy : Gives P y) : Gives P (if p then x else y) := by
  split
  · exact hx
  · exact hy

theorem Gives.bind {α β : Type} {P : α → Prop} {Q : β → Prop} {x : Step α} {f : α → Step β}
    (hx : Gives P x) (hf : ∀ a, P a → Gives Q (f a)) : Gives Q (x.bind f) := by
  cases x with
  | error e => exact .error e
  | ok a => exact hf a (hx a rfl)

theorem fieldsFinite_lastWins {fields : Fields} (h : Value.fieldsFinite fields = true) :
    Value.fieldsFinite (Fields.lastWins fields) = true := by
  have hfold : ∀ (fields acc : Fields), Value.fieldsFinite fields = true →
      Value.fieldsFinite acc = true →
      Value.fieldsFinite (fields.foldl (fun acc f => Entries.put f.1 f.2 acc) acc) = true := by
    intro fields
    induction fields with
    | nil => exact fun _ _ hacc => hacc
    | cons f rest ih =>
      intro acc hfields hacc
      simp only [Value.fieldsFinite, Bool.and_eq_true] at hfields
      refine ih _ hfields.2 (Value.fieldsFinite_iff.mpr fun g hg => ?_)
      rcases Entries.mem_put hg with rfl | hg
      · exact hfields.1
      · exact Value.fieldsFinite_iff.mp hacc g hg
  exact hfold fields [] h rfl

theorem isFinite_close {members : Members} (h : Value.fieldsFinite members.fields = true)
    (strict : Bool) : (members.close strict).isFinite = true := by
  have hreverse : Value.fieldsFinite members.fields.reverse = true :=
    Value.fieldsFinite_iff.mpr fun f hf => Value.fieldsFinite_iff.mp h f (List.mem_reverse.mp hf)
  unfold Members.close
  split
  · rfl
  · split
    · exact fieldsFinite_lastWins hreverse
    · exact hreverse

variable {r : Reader}

theorem isFinite_finish (h : ∀ f ∈ r.stack, f.IsFinite) {v : Value} (hv : v.isFinite = true) :
    (r.finish v).IsFinite := by
  unfold finish
  split
  · next hstack => exact ⟨hv, h⟩
  · next hstack =>
    rw [hstack, List.forall_mem_cons] at h
    refine ⟨?_, h.2⟩
    change (v.isFinite && Value.allFinite _) = true
    rw [hv, h.1]
    rfl
  · next members key _ hstack =>
    rw [hstack, List.forall_mem_cons] at h
    refine ⟨?_, h.2⟩
    cases key with
    | none => exact h.1
    | some key =>
      change (v.isFinite && Value.fieldsFinite _) = true
      rw [hv, h.1]
      rfl

theorem gives_beginValue (h : ∀ f ∈ r.stack, f.IsFinite) (c : Char) :
    Gives IsFinite (r.beginValue c) := by
  have henter {mode : Mode} (hmode : mode.IsFinite) : Gives IsFinite (r.enter mode) := .ok ⟨hmode, h⟩
  have hnest {mode : Mode} (hmode : mode.IsFinite) :
      Gives IsFinite (if r.strict && maxDepth ≤ r.stack.length then r.fail .tooDeep else r.enter mode) :=
    .ite (.error _) (henter hmode)
  unfold beginValue
  simp only
  split
  · exact henter trivial
  · split
    · next hnumber => exact henter (Numeral.fits_start (by simpa using hnumber))
    · exact .ite (hnest trivial) (.ite (hnest trivial) (.ite (henter rfl) (.ite (henter rfl)
        (.ite (henter rfl) (.error _)))))

theorem gives_beginItem (h : ∀ f ∈ r.stack, f.IsFinite) {items : List Value}
    (hitems : Value.allFinite items = true) (c : Char) : Gives IsFinite (r.beginItem items c) := by
  have hstack : ∀ f ∈ Frame.list items :: r.stack, f.IsFinite := List.forall_mem_cons.mpr ⟨hitems, h⟩
  exact gives_beginValue hstack c

theorem gives_pushBetween (h : r.IsFinite) (c : Char) : Gives IsFinite (r.pushBetween c) := by
  have henter {mode : Mode} (hmode : mode.IsFinite) : Gives IsFinite (r.enter mode) :=
    .ok ⟨hmode, h.stack⟩
  have hfinish {v : Value} (hv : v.isFinite = true) : Gives IsFinite (.ok (r.finish v)) :=
    .ok (isFinite_finish h.stack hv)
  have hmode := h.mode
  unfold pushBetween
  refine .ite (.ok h) ?_
  cases hr : r.mode with
  | firstItem => exact .ite (hfinish rfl) (gives_beginItem h.stack rfl c)
  | nextItem items =>
    rw [hr] at hmode
    exact .ite (.error _) (gives_beginItem h.stack hmode c)
  | itemEnd items =>
    rw [hr] at hmode
    have hreverse : Value.allFinite items.reverse = true :=
      Value.allFinite_iff.mpr fun v hv => Value.allFinite_iff.mp hmode v (List.mem_reverse.mp hv)
    exact .ite (henter hmode) (.ite (hfinish hreverse) (.error _))
  | firstKey => exact .ite (henter rfl) (.ite (hfinish rfl) (.error _))
  | nextKey members =>
    rw [hr] at hmode
    exact .ite (henter hmode) (.ite (.error _) (.error _))
  | colon members key =>
    rw [hr] at hmode
    exact .ite (.ok ⟨trivial, List.forall_mem_cons.mpr ⟨hmode, h.stack⟩⟩) (.error _)
  | fieldEnd members =>
    rw [hr] at hmode
    exact .ite (henter hmode) (.ite (hfinish (isFinite_close hmode r.strict)) (.error _))
  | ended => exact .error _
  | value | string | word | number | key => exact gives_beginValue h.stack c

theorem gives_finishNumber (h : r.IsFinite) {n : Numeral} (hn : n.Fits) :
    Gives IsFinite (r.finishNumber n) := by
  unfold finishNumber
  split
  · next hnumber => exact .ok (isFinite_finish h.stack (hn.isFinite_ofNumber hnumber))
  · exact .ite (.error _) (.ok (isFinite_finish h.stack rfl))

theorem gives_push (h : r.IsFinite) (c : Char) : Gives IsFinite (r.push c) := by
  have hmode := h.mode
  unfold push
  split
  · split
    · exact .ok ⟨trivial, h.stack⟩
    · refine .ok (isFinite_finish h.stack ?_)
      split <;> rfl
    · exact .error _
  · next members l hr =>
    rw [hr] at hmode
    split
    · exact .ok ⟨hmode, h.stack⟩
    · exact .ok ⟨hmode, h.stack⟩
    · exact .error _
  · next hr =>
    rw [hr] at hmode
    exact .ite (.ite (.ok (isFinite_finish h.stack hmode)) (.ok ⟨hmode, h.stack⟩)) (.error _)
  · next n hr =>
    rw [hr] at hmode
    have hnext := Numeral.Fits.push hmode r.strict c
    generalize n.push r.strict c = next at hnext
    cases next with
    | more n' => exact .ok ⟨hnext, h.stack⟩
    | stop => exact (gives_finishNumber h hmode).bind fun r' hr' => gives_pushBetween hr' c
    | fault => exact .error _
  · exact gives_pushBetween h c

theorem gives_close (h : r.IsFinite) : Gives (fun v => v.isFinite = true) r.close := by
  have hmode := h.mode
  unfold close
  simp only
  cases hr : r.mode with
  | number n =>
    rw [hr] at hmode
    refine .ite ((gives_finishNumber h hmode).bind fun r' hr' => ?_) (.error _)
    have hmode' := hr'.mode
    split
    · next hended =>
      rw [hended] at hmode'
      exact .ok hmode'
    · exact .error _
    · exact .error _
  | ended v =>
    rw [hr] at hmode
    exact .ok hmode
  | value | firstItem | nextItem | itemEnd | firstKey | nextKey | key | colon | fieldEnd | string | word =>
    exact .error _

theorem gives_run (h : r.IsFinite) (cs : List Char) :
    Gives (fun v => v.isFinite = true) (r.run cs) := by
  induction cs generalizing r with
  | nil => exact gives_close h
  | cons c rest ih =>
    refine (gives_push h c).bind fun r' hr' => ih ?_
    exact ⟨hr'.mode, hr'.stack⟩

end Reader

theorem isFinite_of_read {text : String} {v : Value} (h : read text = .ok v) : v.isFinite = true := by
  unfold read readWith at h
  split at h
  · next hrun =>
    cases h
    have hstart : Reader.IsFinite ⟨true, 0, .value, []⟩ := ⟨trivial, fun _ hf => by cases hf⟩
    exact Reader.gives_run hstart _ _ hrun
  · cases h

end BlockRobot.Json
