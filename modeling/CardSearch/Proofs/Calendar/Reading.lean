import CardSearch.ReleaseDate
import CardSearch.Proofs.Calendar.Days

/-!
# Days are read back from their text

A day of a year of four digits is written with as many digits of the year and two each of the month
and the day. Numbers of a fixed width are read back whatever follows them, so the whole text is.
-/

namespace CardSearch

namespace Calendar

/-- The last digits of a number, as many as are asked for. -/
def padded : Nat → Nat → List Char
  | 0, _ => []
  | width + 1, n => padded width (n / 10) ++ [Nat.digitChar (n % 10)]

variable {width n : Nat}

theorem length_padded (width n : Nat) : (padded width n).length = width := by
  induction width generalizing n with
  | zero => rfl
  | succ width ih => rw [padded, List.length_append, ih, List.length_singleton]

theorem forall_mem_padded {p : Char → Prop} (h : ∀ k < 10, p (Nat.digitChar k)) (width n : Nat) :
    ∀ c ∈ padded width n, p c := by
  induction width generalizing n with
  | zero => exact List.forall_mem_nil p
  | succ width ih =>
    rw [padded, List.forall_mem_append, List.forall_mem_singleton]
    exact ⟨ih (n / 10), h _ (Nat.mod_lt n (by decide))⟩

private theorem isDigit_of_mem_padded : ∀ c ∈ padded width n, c.isDigit = true :=
  forall_mem_padded (by decide) width n

private theorem digitsValue_padded (h : n < 10 ^ width) :
    Text.digitsValue (padded width n) = n := by
  induction width generalizing n with
  | zero =>
    obtain rfl : n = 0 := Nat.lt_one_iff.1 h
    rfl
  | succ width ih =>
    have hdigit : ∀ k < 10, (Nat.digitChar k).toNat - '0'.toNat = k := by decide
    rw [padded, Text.digitsValue, List.foldl_append, ← Text.digitsValue,
      ih (Nat.div_lt_of_lt_mul (by rwa [← Nat.pow_succ'])), List.foldl_cons, List.foldl_nil,
      hdigit _ (Nat.mod_lt n (by decide)), Nat.div_add_mod]

theorem padded_ne_nil (width : Nat) (hwidth : width ≠ 0) (n : Nat) : padded width n ≠ [] :=
  fun h => hwidth ((length_padded width n).symm.trans (congrArg List.length h))

theorem number?_padded (width : Nat) (hwidth : width ≠ 0) (h : n < 10 ^ width) (rest : List Char) :
    number? width (padded width n ++ rest) = some (n, rest) := by
  have hdigits : ((padded width n ++ rest).takeWhile Char.isDigit).take width = padded width n := by
    rw [List.takeWhile_append_of_pos isDigit_of_mem_padded,
      List.take_left' (length_padded width n)]
  have hne : (padded width n).isEmpty = false :=
    List.isEmpty_eq_false_iff.2 (padded_ne_nil width hwidth n)
  rw [number?]
  simp only [hdigits, hne, Bool.false_eq_true, if_false, digitsValue_padded h, length_padded,
    List.drop_left' (length_padded width n)]

private theorem skipBlanks_padded (width : Nat) (hwidth : width ≠ 0) (n : Nat) (rest : List Char) :
    skipBlanks (padded width n ++ rest) = padded width n ++ rest := by
  obtain ⟨c, cs, hcs⟩ := List.exists_cons_of_ne_nil (padded_ne_nil width hwidth n)
  have hblank : CharClass.blank.contains c = false :=
    forall_mem_padded (p := fun c => CharClass.blank.contains c = false) (by decide) width n c
      (hcs ▸ List.mem_cons_self)
  rw [hcs, List.cons_append, skipBlanks, List.dropWhile_cons_of_neg (by simp [hblank])]

private theorem year?_padded (h : n < 10 ^ 4) (rest : List Char) :
    year? (padded 4 n ++ rest) = some ((n : Int), rest) := by
  have hsign : ∀ c ∈ padded 4 n, c ≠ '-' ∧ c ≠ '+' := forall_mem_padded (by decide) 4 n
  obtain ⟨c, cs, hcs⟩ := List.exists_cons_of_ne_nil (padded_ne_nil 4 (by decide) n)
  have hnumber := number?_padded 4 (by decide) h rest
  rw [hcs, List.cons_append] at hnumber ⊢
  have hc := hsign c (hcs ▸ List.mem_cons_self)
  unfold year?
  split
  · next heq => exact absurd (List.cons.inj heq).1 hc.1
  · next heq => exact absurd (List.cons.inj heq).1 hc.2
  · rw [hnumber, Option.map_some]

end Calendar

namespace Day

open Calendar

def text (d : Day) : String :=
  String.ofList (padded 4 d.year.toNat ++ '-' :: (padded 2 d.month ++ '-' :: padded 2 d.day))

theorem read?_text (d : Day) (hfirst : 0 ≤ d.year) (hlast : d.year ≤ 9999) :
    read? d.text.toList = some d.millis := by
  have hyear : d.year.toNat < 10 ^ 4 := by omega
  have hmonth : d.month < 10 ^ 2 := Nat.lt_of_le_of_lt d.month_le (by decide)
  have hday : d.day < 10 ^ 2 :=
    Nat.lt_of_le_of_lt (Nat.le_trans d.day_le (daysInMonth_le d.year d.month)) (by decide)
  have hlastDay := number?_padded 2 (by decide) hday []
  rw [List.append_nil] at hlastDay
  have hskip := skipBlanks_padded 2 (by decide) d.day []
  rw [List.append_nil] at hskip
  rw [text, String.toList_ofList, read?]
  simp only [skipBlanks_padded 4 (by decide), year?_padded hyear, afterHyphen?,
    skipBlanks_padded 2 (by decide), number?_padded 2 (by decide) hmonth, hskip,
    hlastDay, Option.bind_eq_bind, Option.bind_some, List.isEmpty_nil, if_true,
    Int.toNat_of_nonneg hfirst, millis?_eq]

end Day

end CardSearch
