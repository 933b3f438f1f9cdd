import Mathlib.Data.List.TakeWhile
import BlockRobot.CommandLine.Report

/-!
# Where a report points

A line and a column name a place in the bytes of a text: the line counts line feeds, and the column counts
bytes from the last of them on. The offset of a report is that place, and what it marks lies in the text:
`Report.byteOffset_place`.
-/

namespace BlockRobot.Report

def lineFeed : UInt8 := 10

def sinceFeed (bytes : List UInt8) : Nat := (bytes.reverse.takeWhile (· != lineFeed)).length

def bytesBefore (source : String) (o : Nat) : List UInt8 := source.toUTF8.data.toList.take o

def lineAt (source : String) (o : Nat) : Nat := 1 + (bytesBefore source o).count lineFeed

/-- The column of a byte offset, counted from 1 and in bytes. -/
def columnAt (source : String) (o : Nat) : Nat := 1 + sinceFeed (bytesBefore source o)

/-! ## Bytes -/

/-- The number of bytes up to the end of the line feed number `feeds`. -/
def startAfter : Nat → List UInt8 → Nat
  | 0, _ => 0
  | _, [] => 0
  | n + 1, b :: rest => 1 + startAfter (if b = lineFeed then n else n + 1) rest

theorem startAfter_zero (bytes : List UInt8) : startAfter 0 bytes = 0 := by cases bytes <;> rfl

theorem sinceFeed_of_not_mem {bytes : List UInt8} (h : lineFeed ∉ bytes) :
    sinceFeed bytes = bytes.length := by
  have hall : ∀ b ∈ bytes.reverse, (b != lineFeed) = true := by
    intro b hb
    exact bne_iff_ne.mpr fun heq => h (heq ▸ List.mem_reverse.mp hb)
  rw [sinceFeed, List.takeWhile_eq_self_iff.mpr hall, List.length_reverse]

theorem sinceFeed_cons_of_mem {bytes : List UInt8} (h : lineFeed ∈ bytes) (b : UInt8) :
    sinceFeed (b :: bytes) = sinceFeed bytes := by
  have hstop : (bytes.reverse.takeWhile (· != lineFeed)).length ≠ bytes.reverse.length := by
    intro hlength
    have hall := List.takeWhile_eq_self_iff.mp (List.takeWhile_prefix _ |>.eq_of_length hlength)
    exact bne_iff_ne.mp (hall _ (List.mem_reverse.mpr h)) rfl
  rw [sinceFeed, List.reverse_cons, List.takeWhile_append, if_neg hstop, sinceFeed]

theorem sinceFeed_feed_cons (bytes : List UInt8) : sinceFeed (lineFeed :: bytes) = sinceFeed bytes := by
  by_cases h : lineFeed ∈ bytes
  · exact sinceFeed_cons_of_mem h lineFeed
  · have hall := sinceFeed_of_not_mem h
    rw [sinceFeed] at hall
    rw [sinceFeed, List.reverse_cons, List.takeWhile_append, List.length_reverse, if_pos hall,
      List.takeWhile_cons_of_neg (by simp), List.append_nil, List.length_reverse, sinceFeed, hall]

/-- The line of a place starts where its column says. -/
theorem startAfter_count_add (before after : List UInt8) :
    startAfter (before.count lineFeed) (before ++ after) + sinceFeed before = before.length := by
  induction before with
  | nil => exact startAfter_zero after
  | cons b rest ih =>
    by_cases hb : b = lineFeed
    · subst hb
      rw [List.count_cons_self, List.cons_append, startAfter, if_pos rfl, sinceFeed_feed_cons, List.length_cons]
      omega
    · rw [List.count_cons_of_ne hb]
      by_cases hmem : lineFeed ∈ rest
      · obtain ⟨n, hn⟩ := Nat.exists_eq_add_one_of_ne_zero (Nat.ne_of_gt (List.count_pos_iff.mpr hmem))
        rw [hn] at ih ⊢
        rw [List.cons_append, startAfter, if_neg hb, sinceFeed_cons_of_mem hmem, List.length_cons]
        omega
      · rw [List.count_eq_zero.mpr hmem, startAfter_zero, Nat.zero_add,
          sinceFeed_of_not_mem (by simp [hmem, Ne.symm hb])]

theorem startAfter_append {bytes : List UInt8} (h : lineFeed ∉ bytes) (n : Nat) (rest : List UInt8) :
    startAfter (n + 1) (bytes ++ rest) = bytes.length + startAfter (n + 1) rest := by
  induction bytes with
  | nil => rw [List.nil_append, List.length_nil, Nat.zero_add]
  | cons b bytes ih =>
    obtain ⟨hb, hrest⟩ := List.ne_and_not_mem_of_not_mem_cons h
    rw [List.cons_append, startAfter, if_neg (Ne.symm hb), ih hrest, List.length_cons]
    omega

/-! ## Characters -/

theorem lineFeed_ne_ofNat {n : Nat} (h : n < 256) (hne : n ≠ 10) : lineFeed ≠ UInt8.ofNat n := by
  intro heq
  have hn := congrArg UInt8.toNat heq
  rw [UInt8.toNat_ofNat_of_lt' h] at hn
  exact hne hn.symm

theorem lineFeed_not_mem_encode {c : Char} (h : c ≠ '\n') : lineFeed ∉ String.utf8EncodeChar c := by
  have hcode : c.val.toNat ≠ 10 := fun heq => h (Char.ext (UInt32.toNat_inj.mp heq))
  -- The bytes of a longer encoding are all at least 128.
  fun_cases String.utf8EncodeChar c
  all_goals
    simp only [List.mem_cons, List.not_mem_nil, or_false, not_or]
    and_intros
    all_goals exact lineFeed_ne_ofNat (by omega) (by omega)

theorem lineStart_eq (n : Nat) (cs : List Char) :
    lineStart n cs = startAfter n (cs.flatMap String.utf8EncodeChar) := by
  induction cs generalizing n with
  | nil => cases n <;> rfl
  | cons c rest ih =>
    cases n with
    | zero => rw [lineStart, startAfter_zero]
    | succ n =>
      rw [lineStart, List.flatMap_cons, ih]
      by_cases hc : c = '\n'
      · subst hc
        rfl
      · rw [if_neg hc, startAfter_append (lineFeed_not_mem_encode hc), String.length_utf8EncodeChar]

theorem toList_toUTF8 (source : String) :
    source.toUTF8.data.toList = source.toList.flatMap String.utf8EncodeChar := by
  rw [String.toUTF8_eq_toByteArray, ← String.utf8Encode_toList, List.utf8Encode, List.data_toByteArray]

/-- The offset of a line and column is the place that they were counted at, no offset lies behind the end of the
text, and what a report marks is a part of the text, empty only at its end. -/
theorem byteOffset_place (source : String) :
    (∀ o ≤ source.utf8ByteSize, byteOffset source (lineAt source o) (columnAt source o) = o) ∧
    (∀ line column, byteOffset source line column ≤ source.utf8ByteSize) ∧
    ∀ error, (marked source error).1 ≤ (marked source error).2 ∧
      (marked source error).2 ≤ source.utf8ByteSize ∧
      ((marked source error).1 = (marked source error).2 ↔ (marked source error).1 = source.utf8ByteSize) := by
  have hbound (line column : Nat) : byteOffset source line column ≤ source.utf8ByteSize := Nat.min_le_right _ _
  refine ⟨fun o ho => ?inverse, hbound, fun error => ?inside⟩
  case inverse =>
    have hlength : (bytesBefore source o).length = o := by
      have hsize : source.toUTF8.data.toList.length = source.utf8ByteSize := by
        rw [String.toUTF8_eq_toByteArray]
        exact String.size_toByteArray
      rw [bytesBefore, List.length_take, hsize, Nat.min_eq_left ho]
    have hplace := startAfter_count_add (bytesBefore source o) (source.toUTF8.data.toList.drop o)
    rw [bytesBefore, List.take_append_drop, ← bytesBefore, hlength, toList_toUTF8, ← lineStart_eq] at hplace
    rw [byteOffset, lineAt, columnAt, Nat.add_sub_cancel_left, Nat.add_sub_cancel_left, hplace, Nat.min_eq_left ho]
  case inside =>
    have hoffset : offset source error ≤ source.utf8ByteSize := by
      cases error with
      | json e => exact hbound _ _
      | _ => exact Nat.zero_le _
    simp only [marked]
    omega

/-- Lines of several lengths and of wide characters, the last of them ended. -/
def ragged : String := "é\n\nβ\n"

theorem ragged_places :
    5 ≤ ragged.utf8ByteSize ∧ lineAt ragged 5 = 3 ∧ columnAt ragged 5 = 2 ∧ byteOffset ragged 3 2 = 5 ∧
      ragged.utf8ByteSize = 7 ∧ lineAt ragged 7 = 4 ∧ columnAt ragged 7 = 1 ∧ byteOffset ragged 4 1 = 7 := by
  have hsize : ragged.utf8ByteSize = 7 := by decide
  have hwithin : 5 ≤ ragged.utf8ByteSize := by decide
  obtain ⟨hplace, -⟩ := byteOffset_place ragged
  exact ⟨hwithin, by decide, by decide, hplace 5 hwithin, hsize, by decide, by decide,
    hplace 7 (Nat.le_of_eq hsize.symm)⟩

end BlockRobot.Report
