/-!
# The case of letters

The letters of ASCII are what a change of case moves, by 32 places from one alphabet to the other.
Everything else stays where it is.
-/

namespace CardSearch.Text

variable {c d : Char}

private theorem eq_iff_toNat_eq : c = d ↔ c.toNat = d.toNat :=
  ⟨congrArg Char.toNat, fun h => Char.ext (UInt32.toNat_inj.1 h)⟩

private theorem isUpper_iff : c.isUpper = true ↔ 65 ≤ c.toNat ∧ c.toNat ≤ 90 := by
  delta Char.isUpper
  simp only [decide_eq_true_eq, ge_iff_le, UInt32.le_iff_toNat_le]
  rfl

private theorem isLower_iff : c.isLower = true ↔ 97 ≤ c.toNat ∧ c.toNat ≤ 122 := by
  delta Char.isLower
  simp only [decide_eq_true_eq, Bool.and_eq_true, ge_iff_le, UInt32.le_iff_toNat_le]
  rfl

private theorem isDigit_iff : c.isDigit = true ↔ 48 ≤ c.toNat ∧ c.toNat ≤ 57 := by
  delta Char.isDigit
  simp only [decide_eq_true_eq, Bool.and_eq_true, ge_iff_le, UInt32.le_iff_toNat_le]
  rfl

private theorem isAlpha_eq_false_iff : c.isAlpha = false ↔
    ¬ (65 ≤ c.toNat ∧ c.toNat ≤ 90) ∧ ¬ (97 ≤ c.toNat ∧ c.toNat ≤ 122) := by
  rw [← isUpper_iff, ← isLower_iff, Bool.not_eq_true, Bool.not_eq_true, ← Bool.or_eq_false_iff]
  rfl

private theorem toNat_toUpper (c : Char) :
    c.toUpper.toNat = if 97 ≤ c.toNat ∧ c.toNat ≤ 122 then c.toNat - 32 else c.toNat := by
  have hrange : 'a'.val ≤ c.val ∧ c.val ≤ 'z'.val ↔ 97 ≤ c.toNat ∧ c.toNat ≤ 122 := by
    rw [UInt32.le_iff_toNat_le, UInt32.le_iff_toNat_le]
    rfl
  have hstep : ('A'.val - 'a'.val).toNat = 2 ^ 32 - 32 := by decide
  by_cases h : 97 ≤ c.toNat ∧ c.toNat ≤ 122
  · have hmoved : c.toUpper.val = c.val + ('A'.val - 'a'.val) := by
      delta Char.toUpper
      rw [dif_pos (hrange.2 h)]
    rw [if_pos h, ← Char.toNat_val, hmoved, UInt32.toNat_add, hstep, Char.toNat_val]
    omega
  · have hsame : c.toUpper = c := by
      delta Char.toUpper
      rw [dif_neg (mt hrange.1 h)]
    rw [if_neg h, hsame]

private theorem toNat_toLower (c : Char) :
    c.toLower.toNat = if 65 ≤ c.toNat ∧ c.toNat ≤ 90 then c.toNat + 32 else c.toNat := by
  have hrange : c.val ≥ 'A'.val ∧ c.val ≤ 'Z'.val ↔ 65 ≤ c.toNat ∧ c.toNat ≤ 90 := by
    rw [ge_iff_le, UInt32.le_iff_toNat_le, UInt32.le_iff_toNat_le]
    rfl
  have hstep : ('a'.val - 'A'.val).toNat = 32 := by decide
  by_cases h : 65 ≤ c.toNat ∧ c.toNat ≤ 90
  · have hmoved : c.toLower.val = c.val + ('a'.val - 'A'.val) := by
      delta Char.toLower
      rw [dif_pos (hrange.2 h)]
    rw [if_pos h, ← Char.toNat_val, hmoved, UInt32.toNat_add, hstep, Char.toNat_val]
    omega
  · have hsame : c.toLower = c := by
      delta Char.toLower
      rw [dif_neg (mt hrange.1 h)]
    rw [if_neg h, hsame]

theorem isAlpha_of_isDigit (h : c.isDigit = true) : c.isAlpha = false := by
  rw [isDigit_iff] at h
  rw [isAlpha_eq_false_iff]
  omega

theorem utf8Size_eq_one_iff : c.utf8Size = 1 ↔ c.toNat < 128 := by
  rw [Char.utf8Size_eq_one_iff, UInt32.le_iff_toNat_le]
  exact Nat.lt_succ_iff.symm

theorem utf8Size_of_isLower (h : c.isLower = true) : c.utf8Size = 1 := by
  rw [isLower_iff] at h
  rw [utf8Size_eq_one_iff]
  omega

theorem toUpper_of_not_isLower (h : ¬ c.isLower = true) : c.toUpper = c := by
  rw [isLower_iff] at h
  rw [eq_iff_toNat_eq, toNat_toUpper, if_neg h]

theorem toUpper_toUpper (c : Char) : c.toUpper.toUpper = c.toUpper := by
  rw [eq_iff_toNat_eq, toNat_toUpper c.toUpper, if_neg]
  rw [toNat_toUpper]
  split <;> omega

theorem toUpper_eq_iff (hd : d.isAlpha = false) : c.toUpper = d ↔ c = d := by
  rw [isAlpha_eq_false_iff] at hd
  rw [eq_iff_toNat_eq, eq_iff_toNat_eq, toNat_toUpper]
  split <;> omega

theorem toLower_eq_iff (hd : d.isAlpha = false) : c.toLower = d ↔ c = d := by
  rw [isAlpha_eq_false_iff] at hd
  rw [eq_iff_toNat_eq, eq_iff_toNat_eq, toNat_toLower]
  split <;> omega

theorem isDigit_toUpper (c : Char) : c.toUpper.isDigit = c.isDigit := by
  rw [Bool.eq_iff_iff, isDigit_iff, isDigit_iff, toNat_toUpper]
  split <;> omega

/-- A change of case leads neither out of ASCII nor into it. -/
theorem toNat_toLower_lt_iff : c.toLower.toNat < 128 ↔ c.toNat < 128 := by
  rw [toNat_toLower]
  split <;> omega

end CardSearch.Text
