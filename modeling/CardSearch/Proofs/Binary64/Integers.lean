import CardSearch.Binary64
import Mathlib.Algebra.Order.Ring.Nat
import Mathlib.Tactic.Ring

/-!
# Integers among double-precision numbers

An integer of at most 53 bits is a double-precision number: its leading bit is moved to the place
where the integer of a number has it, and nothing is rounded away. So different integers of that
size are different numbers.
-/

namespace CardSearch.Binary64

def finest : Nat := 1074

theorem denominator_eq : denominator = 2 ^ finest := Nat.one_shiftLeft finest

theorem denominator_eq_mul {e : Nat} (he : e ≤ 52) :
    denominator = 2 ^ (52 - e) * 2 ^ (e + 1022) := by
  have hsum : 52 - e + (e + 1022) = finest := by
    unfold finest
    omega
  rw [← Nat.pow_add, hsum, denominator_eq]

/-- A multiple is divided without rounding. -/
theorem roundDiv_mul {m d : Nat} (hd : 0 < d) : roundDiv (m * d) d = m := by
  have hne : ¬ (0 == d) = true := by simpa using Nat.ne_of_lt hd
  simp [roundDiv, Nat.mul_div_cancel m hd, hne]

private theorem log2_mul_two_pow {n : Nat} (hn : n ≠ 0) (k : Nat) :
    Nat.log2 (n * 2 ^ k) = Nat.log2 n + k := by
  have hpos : 0 < 2 ^ k := Nat.two_pow_pos k
  refine (Nat.log2_eq_iff (Nat.mul_ne_zero hn hpos.ne')).2 ⟨?_, ?_⟩
  · rw [Nat.pow_add]
    exact Nat.mul_le_mul_right _ (Nat.log2_self_le hn)
  · rw [Nat.add_right_comm, Nat.pow_add]
    exact Nat.mul_lt_mul_of_pos_right Nat.lt_log2_self hpos

variable {n : Nat}

/-- The integer of the number of a positive integer has 53 bits. -/
theorem mantissa_bounds (hn : n ≠ 0) (hlt : n < 2 ^ 53) :
    Nat.log2 n ≤ 52 ∧ 2 ^ 52 ≤ n * 2 ^ (52 - Nat.log2 n) ∧ n * 2 ^ (52 - Nat.log2 n) < 2 ^ 53 := by
  have hlog : Nat.log2 n < 53 := (Nat.log2_lt hn).2 hlt
  have hpow (k : Nat) (hk : Nat.log2 n ≤ 52) :
      2 ^ (Nat.log2 n + k) * 2 ^ (52 - Nat.log2 n) = 2 ^ (52 + k) := by
    rw [← Nat.pow_add]
    congr 1
    omega
  have hle : Nat.log2 n ≤ 52 := Nat.le_of_lt_succ hlog
  refine ⟨hle, ?_, ?_⟩
  · rw [← hpow 0 hle]
    exact Nat.mul_le_mul_right _ (Nat.log2_self_le hn)
  · rw [← hpow 1 hle]
    exact Nat.mul_lt_mul_of_pos_right Nat.lt_log2_self (Nat.two_pow_pos _)

/-- A positive integer of at most 53 bits is a number with nothing rounded. -/
theorem ofFraction_of_lt (negative : Bool) (hn : n ≠ 0) (hlt : n < 2 ^ 53) :
    ofFraction negative n 1 = ofSignBits negative
      ((Nat.log2 n + 1022) * 2 ^ 52 + n * 2 ^ (52 - Nat.log2 n)) := by
  obtain ⟨hlog, -, hupper⟩ := mantissa_bounds hn hlt
  have hestimate : Nat.log2 (n * denominator) - Nat.log2 1 - 52 = Nat.log2 n + 1022 := by
    rw [denominator_eq, log2_mul_two_pow hn]
    rfl
  have hscale : ¬ n * denominator < 1 <<< (52 + (Nat.log2 n + 1022)) := by
    have hsum : 52 + (Nat.log2 n + 1022) = Nat.log2 n + finest := by
      unfold finest
      omega
    rw [denominator_eq, Nat.one_shiftLeft, hsum, Nat.pow_add, Nat.not_lt]
    exact Nat.mul_le_mul_right _ (Nat.log2_self_le hn)
  have hround : roundDiv (n * denominator) (1 <<< (Nat.log2 n + 1022)) =
      n * 2 ^ (52 - Nat.log2 n) := by
    rw [Nat.one_shiftLeft, denominator_eq_mul hlog, ← Nat.mul_assoc,
      roundDiv_mul (Nat.two_pow_pos _)]
  have hfinite : (Nat.log2 n + 1022) * 2 ^ 52 + n * 2 ^ (52 - Nat.log2 n) ≤ infinityBits := by
    have hinfinity : infinityBits = 2047 * 2 ^ 52 := Nat.shiftLeft_eq 2047 52
    omega
  unfold ofFraction
  dsimp only
  rw [hestimate, if_neg hscale, hround, Nat.shiftLeft_eq, Nat.min_eq_right hfinite]

/-- What a number of a given exponent and integer is worth. -/
theorem numerator_ofSignBits (negative : Bool) {e m : Nat} (he : e < 2046) (hlower : 2 ^ 52 ≤ m)
    (hupper : m < 2 ^ 53) :
    (ofSignBits negative (e * 2 ^ 52 + m)).numerator = m * 2 ^ e ∧
      (ofSignBits negative (e * 2 ^ 52 + m)).isNegative = negative := by
  generalize hx : ofSignBits negative (e * 2 ^ 52 + m) = x
  have hbits : x.bits.toNat = e * 2 ^ 52 + m + if negative then 2 ^ 63 else 0 := by
    have hsize : UInt64.size = 2 ^ 64 := rfl
    rw [← hx, ofSignBits, Nat.one_shiftLeft]
    refine UInt64.toNat_ofNat_of_lt' ?_
    cases negative <;> simp only [reduceIte, Bool.false_eq_true] <;> omega
  have hexponent : x.exponentField = e + 1 := by
    rw [exponentField, Nat.shiftRight_eq_div_pow, hbits]
    cases negative <;> simp only [reduceIte, Bool.false_eq_true] <;> omega
  have hfraction : x.fraction = m - 2 ^ 52 := by
    rw [fraction, Nat.one_shiftLeft, hbits]
    cases negative <;> simp only [reduceIte, Bool.false_eq_true] <;> omega
  constructor
  · have hmantissa : x.mantissa = m := by
      rw [mantissa, hexponent, hfraction, if_neg (Nat.succ_ne_zero e), Nat.one_shiftLeft]
      omega
    rw [numerator, scale, hmantissa, hexponent, Nat.shiftLeft_eq, Nat.add_sub_cancel]
  · rw [isNegative, hbits, Nat.one_shiftLeft]
    cases negative <;> simp only [reduceIte, Bool.false_eq_true, decide_eq_true_eq,
      decide_eq_false_iff_not] <;> omega

/-- An integer of at most 53 bits is worth itself. -/
theorem signed_ofInt {i : Int} (h : i.natAbs < 2 ^ 53) :
    (ofInt i).signed (ofInt i).numerator = i * denominator := by
  by_cases hzero : i.natAbs = 0
  · obtain rfl : i = 0 := Int.natAbs_eq_zero.1 hzero
    rw [Int.zero_mul]
    rfl
  · obtain ⟨hlog, hlower, hupper⟩ := mantissa_bounds hzero h
    have he : Nat.log2 i.natAbs + 1022 < 2046 := by omega
    obtain ⟨hnumerator, hnegative⟩ := numerator_ofSignBits (decide (i < 0)) he hlower hupper
    have hvalue : i.natAbs * 2 ^ (52 - Nat.log2 i.natAbs) * 2 ^ (Nat.log2 i.natAbs + 1022) =
        i.natAbs * denominator := by
      rw [denominator_eq_mul hlog, Nat.mul_assoc]
    rw [ofInt, ofFraction_of_lt _ hzero h, signed, hnumerator, hnegative, hvalue]
    by_cases hi : i < 0
    · have habs : (i.natAbs : Int) = -i := by omega
      simp only [hi, decide_true, if_true, Nat.cast_mul, habs]
      ring
    · have habs : (i.natAbs : Int) = i := by omega
      simp only [hi, decide_false, Bool.false_eq_true, if_false, Nat.cast_mul, habs]

/-- Different integers of at most 53 bits are different numbers. -/
theorem ofInt_injective {i j : Int} (hi : i.natAbs < 2 ^ 53) (hj : j.natAbs < 2 ^ 53)
    (h : ofInt i = ofInt j) : i = j := by
  have hvalue : i * denominator = j * denominator := by
    rw [← signed_ofInt hi, ← signed_ofInt hj, h]
  have hpos : 0 < denominator := denominator_eq ▸ Nat.two_pow_pos _
  exact Int.eq_of_mul_eq_mul_right (Int.natCast_ne_zero.2 hpos.ne') hvalue

end CardSearch.Binary64
