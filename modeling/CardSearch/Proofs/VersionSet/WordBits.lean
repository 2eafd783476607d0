import CardSearch.Proofs.VersionSet.Bits
import CardSearch.VersionSet.WordRange
import Mathlib.Data.Nat.Digits.Defs

/-!
# The bits of a word

What the operations on one word do to its bits, in which order its ones are found, and that they can
be counted with masks: each stage of the count acts on the bytes of a word one by one.
-/

namespace CardSearch

theorem testBit_eq_false_of_le (w : UInt32) {i : Nat} (h : 32 ≤ i) :
    w.toNat.testBit i = false :=
  Nat.testBit_lt_two_pow (Nat.lt_of_lt_of_le w.toNat_lt (Nat.pow_le_pow_right (by decide) h))

theorem eq_of_testBit_eq {a b : UInt32}
    (h : ∀ i < 32, a.toNat.testBit i = b.toNat.testBit i) : a = b := by
  refine UInt32.toNat_inj.1 (Nat.eq_of_testBit_eq fun i => ?_)
  by_cases hi : i < 32
  · exact h i hi
  · have hi := Nat.le_of_not_lt hi
    rw [testBit_eq_false_of_le a hi, testBit_eq_false_of_le b hi]

private theorem eq_zero_iff_testBit (w : UInt32) : w = 0 ↔ ∀ i < 32, w.toNat.testBit i = false := by
  constructor
  · rintro rfl i _
    exact Nat.zero_testBit i
  · exact fun h => eq_of_testBit_eq fun i hi => (h i hi).trans (Nat.zero_testBit i).symm

theorem hasBit_eq (w : UInt32) {i : Nat} (h : i < 32) : hasBit w i = w.toNat.testBit i := by
  have hbits (j : Nat) : (w &&& oneBit i).toNat.testBit j =
      (w.toNat.testBit j && decide (i = j)) := by
    rw [UInt32.toNat_and, Nat.testBit_and, testBit_oneBit h]
  rw [hasBit, Bool.eq_iff_iff, bne_iff_ne, ne_eq, eq_zero_iff_testBit]
  grind

theorem testBit_or_oneBit (w : UInt32) {i j : Nat} (h : j < 32) :
    (w ||| oneBit j).toNat.testBit i = (w.toNat.testBit i || decide (j = i)) := by
  rw [UInt32.toNat_or, Nat.testBit_or, testBit_oneBit h]

theorem testBit_and_not_oneBit (w : UInt32) {i j : Nat} (hi : i < 32) (hj : j < 32) :
    (w &&& ~~~ oneBit j).toNat.testBit i = (w.toNat.testBit i && decide (j ≠ i)) := by
  rw [UInt32.toNat_and, Nat.testBit_and, testBit_not hi, testBit_oneBit hj]
  simp

/-- Setting a bit changes a word unless the bit is set. -/
theorem or_oneBit_eq_self_iff (w : UInt32) {i : Nat} (h : i < 32) :
    w ||| oneBit i = w ↔ w.toNat.testBit i = true := by
  constructor
  · intro heq
    rw [← heq, testBit_or_oneBit w h]
    simp
  · intro hi
    refine eq_of_testBit_eq fun j hj => ?_
    rw [testBit_or_oneBit w h]
    grind

/-- Clearing a bit changes a word if the bit is set. -/
theorem and_not_oneBit_eq_self_iff (w : UInt32) {i : Nat} (h : i < 32) :
    w &&& ~~~ oneBit i = w ↔ w.toNat.testBit i = false := by
  constructor
  · intro heq
    rw [← heq, testBit_and_not_oneBit w h h]
    simp
  · intro hi
    refine eq_of_testBit_eq fun j hj => ?_
    rw [testBit_and_not_oneBit w hj h]
    grind

theorem testBit_tailMask {n i : Nat} (hi : i < 32) :
    (tailMask n).toNat.testBit i = decide (n % 32 = 0 ∨ i < n % 32) := by
  unfold tailMask
  split
  · next h => simp [h, testBit_lowMask_full hi]
  · next h =>
    rw [toNat_lowMask (by omega), Nat.one_shiftLeft, Nat.testBit_two_pow_sub_one]
    simp [h]

theorem trailingZeros_lt {w : UInt32} (h : w ≠ 0) : trailingZeros w < 32 := by
  have hne : w.toBitVec ≠ 0#32 := fun hzero => h (UInt32.toBitVec_inj.1 hzero)
  exact BitVec.ctz_lt_iff_ne_zero.2 hne

theorem testBit_trailingZeros {w : UInt32} (h : w ≠ 0) :
    w.toNat.testBit (trailingZeros w) = true :=
  BitVec.getLsbD_true_ctz_of_ne_zero fun hzero => h (UInt32.toBitVec_inj.1 hzero)

theorem testBit_of_lt_trailingZeros {w : UInt32} {i : Nat} (h : i < trailingZeros w) :
    w.toNat.testBit i = false :=
  BitVec.getLsbD_false_of_lt_ctz h

theorem trailingZeros_le {w : UInt32} {i : Nat} (h : w.toNat.testBit i = true) :
    trailingZeros w ≤ i := by
  refine Nat.le_of_not_lt fun hlt => ?_
  rw [testBit_of_lt_trailingZeros hlt] at h
  cases h

/-- One less than a multiple of a power of two by an odd number has the bits below the power, not
that of the power, and those above it. -/
theorem testBit_and_pred {n k : Nat} (hk : n.testBit k = true)
    (hbelow : ∀ i < k, n.testBit i = false) (i : Nat) :
    (n &&& (n - 1)).testBit i = (n.testBit i && decide (i ≠ k)) := by
  have hmod : n % 2 ^ k = 0 := by
    refine Nat.eq_of_testBit_eq fun i => ?_
    rw [Nat.testBit_mod_two_pow, Nat.zero_testBit]
    by_cases hi : i < k
    · simp [hbelow i hi]
    · simp [hi]
  obtain ⟨q, hq⟩ : ∃ q, n = 2 ^ k * (2 * q + 1) := by
    obtain ⟨p, hp⟩ := Nat.dvd_of_mod_eq_zero hmod
    have hodd : p.testBit 0 = true := by
      rw [hp, Nat.testBit_two_pow_mul] at hk
      simpa using hk
    rw [Nat.testBit_zero, decide_eq_true_eq] at hodd
    exact ⟨p / 2, by rw [hp]; congr 1; omega⟩
  have hpos := Nat.two_pow_pos k
  have hpred : n - 1 = 2 ^ k * (2 * q) + (2 ^ k - 1) := by
    rw [hq, Nat.mul_add, Nat.mul_one]
    omega
  rw [Nat.testBit_and, hpred, Nat.testBit_two_pow_mul_add _ (by omega), hq,
    Nat.testBit_two_pow_mul]
  by_cases hi : i < k
  · simp [hi, Nat.not_le.2 hi]
  · obtain ⟨j, rfl⟩ := Nat.exists_eq_add_of_le (Nat.le_of_not_lt hi)
    cases j with
    | zero => simp
    | succ j => simp [hi, Nat.testBit_add_one, Nat.mul_add_div]

theorem testBit_dropLowest {w : UInt32} (h : w ≠ 0) (i : Nat) :
    (dropLowest w).toNat.testBit i = (w.toNat.testBit i && decide (i ≠ trailingZeros w)) := by
  rw [dropLowest, UInt32.toNat_and, toNat_sub_one h]
  exact testBit_and_pred (testBit_trailingZeros h) (fun _ => testBit_of_lt_trailingZeros) i

theorem mem_ones {w : UInt32} {i : Nat} : i ∈ ones w ↔ w.toNat.testBit i = true := by
  fun_induction ones w with
  | case1 => simp
  | case2 w h ih =>
    have hlow := testBit_trailingZeros h
    rw [List.mem_cons, ih, testBit_dropLowest h]
    grind

theorem pairwise_ones (w : UInt32) : (ones w).Pairwise (· < ·) := by
  fun_induction ones w with
  | case1 => exact .nil
  | case2 w h ih =>
    refine List.pairwise_cons.2 ⟨fun i hi => ?_, ih⟩
    rw [mem_ones, testBit_dropLowest h] at hi
    have := trailingZeros_le (w := w) (i := i)
    grind

theorem lt_of_mem_ones {w : UInt32} {i : Nat} (h : i ∈ ones w) : i < 32 := by
  refine Nat.lt_of_not_le fun hle => ?_
  rw [mem_ones, testBit_eq_false_of_le w hle] at h
  cases h

section Counting

variable {b s : Nat} {bs : List Nat} {v w m : UInt32}

/-- The bytes of a word, lowest first. -/
private structure HasBytes (w : UInt32) (bs : List Nat) : Prop where
  length_eq : bs.length = 4
  lt : ∀ b ∈ bs, b < 256
  toNat_eq : w.toNat = Nat.ofDigits 256 bs

private theorem exists_bytes (w : UInt32) : ∃ bs, HasBytes w bs := by
  have hlt := w.toNat_lt
  refine ⟨[w.toNat % 256, w.toNat / 256 % 256, w.toNat / 65536 % 256, w.toNat / 16777216], rfl,
    ?_, ?_⟩
  · simp only [List.mem_cons, List.not_mem_nil, or_false]
    omega
  · simp only [Nat.ofDigits_cons, Nat.ofDigits_nil]
    omega

private theorem and_add_byte {a b : Nat} (ha : a < 256) (hb : b < 256) (n k : Nat) :
    (a + 256 * n) &&& (b + 256 * k) = (a &&& b) + 256 * (n &&& k) := by
  rw [← Nat.mod_add_div ((a + 256 * n) &&& (b + 256 * k)) (2 ^ 8), Nat.and_mod_two_pow,
    Nat.and_div_two_pow, show (a + 256 * n) % 2 ^ 8 = a by omega,
    show (b + 256 * k) % 2 ^ 8 = b by omega, show (a + 256 * n) / 2 ^ 8 = n by omega,
    show (b + 256 * k) / 2 ^ 8 = k by omega, show 2 ^ 8 = 256 from rfl]

private theorem ofDigits_and (hbs : ∀ b ∈ bs, b < 256) (hb : b < 256) :
    Nat.ofDigits 256 bs &&& Nat.ofDigits 256 (.replicate bs.length b) =
      Nat.ofDigits 256 (bs.map (· &&& b)) := by
  induction bs with
  | nil => exact Nat.and_self 0
  | cons a bs ih =>
    obtain ⟨ha, hbs⟩ := List.forall_mem_cons.1 hbs
    simp only [List.length_cons, List.replicate_succ, List.map_cons, Nat.ofDigits_cons,
      and_add_byte ha hb, ih hbs]

private theorem ofDigits_shiftLeft :
    Nat.ofDigits 256 bs <<< s = Nat.ofDigits 256 (bs.map (· <<< s)) := by
  induction bs with
  | nil => exact Nat.zero_shiftLeft s
  | cons a bs ih =>
    simp only [Nat.shiftLeft_eq] at ih
    simp only [Nat.shiftLeft_eq, List.map_cons, Nat.ofDigits_cons, Nat.add_mul, Nat.mul_assoc, ih]

private theorem and_shiftLeft (n k s : Nat) : n &&& (k <<< s) = ((n >>> s) &&& k) <<< s := by
  refine Nat.eq_of_testBit_eq fun i => ?_
  by_cases h : s ≤ i
  · simp [Nat.testBit_shiftLeft, Nat.testBit_shiftRight, h, Nat.add_sub_cancel' h]
  · simp [Nat.testBit_shiftLeft, h]

/-- Bits that a shift takes from one byte to another do not pass a mask that leaves them out. -/
private theorem ofDigits_shiftRight_and (hbs : ∀ b ∈ bs, b < 256) (hb : b <<< s < 256) :
    (Nat.ofDigits 256 bs >>> s) &&& Nat.ofDigits 256 (.replicate bs.length b) =
      Nat.ofDigits 256 (bs.map (· >>> s &&& b)) := by
  refine Nat.eq_of_mul_eq_mul_right (Nat.two_pow_pos s) ?_
  rw [← Nat.shiftLeft_eq, ← Nat.shiftLeft_eq, ← and_shiftLeft, ofDigits_shiftLeft,
    ofDigits_shiftLeft, List.map_replicate, ofDigits_and hbs hb, List.map_map]
  simp only [Function.comp_def, and_shiftLeft]

private theorem ofDigits_add (bs : List Nat) (f g : Nat → Nat) :
    Nat.ofDigits 256 (bs.map f) + Nat.ofDigits 256 (bs.map g) =
      Nat.ofDigits 256 (bs.map fun b => f b + g b) := by
  induction bs with
  | nil => rfl
  | cons a bs ih =>
    simp only [List.map_cons, Nat.ofDigits_cons, ← ih]
    omega

namespace HasBytes

private theorem and (h : HasBytes w bs) (hm : m.toNat = Nat.ofDigits 256 (.replicate 4 b))
    (hb : b < 256) : HasBytes (w &&& m) (bs.map (· &&& b)) where
  length_eq := by rw [List.length_map, h.length_eq]
  lt := List.forall_mem_map.2 fun a ha => Nat.lt_of_le_of_lt Nat.and_le_left (h.lt a ha)
  toNat_eq := by rw [UInt32.toNat_and, h.toNat_eq, hm, ← h.length_eq, ofDigits_and h.lt hb]

private theorem shiftRight_and {s : UInt32} (h : HasBytes w bs)
    (hm : m.toNat = Nat.ofDigits 256 (.replicate 4 b)) (hs : s.toNat < 32)
    (hb : b <<< s.toNat < 256) : HasBytes (w >>> s &&& m) (bs.map (· >>> s.toNat &&& b)) where
  length_eq := by rw [List.length_map, h.length_eq]
  lt := List.forall_mem_map.2 fun a ha =>
    Nat.lt_of_le_of_lt (Nat.and_le_left.trans (Nat.shiftRight_le ..)) (h.lt a ha)
  toNat_eq := by
    rw [UInt32.toNat_and, UInt32.toNat_shiftRight, Nat.mod_eq_of_lt hs, h.toNat_eq, hm,
      ← h.length_eq, ofDigits_shiftRight_and h.lt hb]

private theorem add {f g : Nat → Nat} (h : HasBytes v (bs.map f)) (h' : HasBytes w (bs.map g))
    (hlt : ∀ b ∈ bs, f b + g b < 256) : HasBytes (v + w) (bs.map fun b => f b + g b) := by
  have hlt : ∀ c ∈ bs.map fun b => f b + g b, c < 256 := List.forall_mem_map.2 hlt
  have hlength : (bs.map fun b => f b + g b).length = 4 := by
    simpa only [List.length_map] using h.length_eq
  refine ⟨hlength, hlt, ?_⟩
  rw [UInt32.toNat_add, h.toNat_eq, h'.toNat_eq, ofDigits_add, Nat.mod_eq_of_lt]
  have := Nat.ofDigits_lt_base_pow_length (b := 256) (by decide) hlt
  rwa [hlength] at this

private theorem sub {f g : Nat → Nat} (h : HasBytes v (bs.map f)) (h' : HasBytes w (bs.map g))
    (hle : ∀ b ∈ bs, g b ≤ f b) : HasBytes (v - w) (bs.map fun b => f b - g b) where
  length_eq := by simpa only [List.length_map] using h.length_eq
  lt := List.forall_mem_map.2 fun b hb =>
    Nat.lt_of_le_of_lt (Nat.sub_le ..) (h.lt _ (List.mem_map_of_mem hb))
  toNat_eq := by
    have hadd := ofDigits_add bs (fun b => f b - g b) g
    rw [List.map_congr_left fun b hb => Nat.sub_add_cancel (hle b hb), ← h.toNat_eq,
      ← h'.toNat_eq] at hadd
    rw [UInt32.toNat_sub_of_le _ _ (UInt32.le_iff_toNat_le.2 (hadd ▸ Nat.le_add_left ..))]
    omega

end HasBytes

/-- What the upper half of a byte takes from the next byte does not pass the mask, and no sum of two
halves reaches the upper one. -/
private theorem ofDigits_add_halves {fs : List Nat} (hfs : ∀ f ∈ fs, f % 16 ≤ 4 ∧ f / 16 ≤ 4) :
    (Nat.ofDigits 256 fs + Nat.ofDigits 256 fs >>> 4) &&&
        Nat.ofDigits 256 (.replicate fs.length 0x0F) =
      Nat.ofDigits 256 (fs.map fun f => f % 16 + f / 16) := by
  induction fs with
  | nil => rfl
  | cons f fs ih =>
    obtain ⟨hf, hfs⟩ := List.forall_mem_cons.1 hfs
    have hnext : Nat.ofDigits 256 fs % 16 ≤ 4 := by
      cases fs with
      | nil => simp
      | cons g fs =>
        have := (hfs g List.mem_cons_self).1
        rw [Nat.ofDigits_cons]
        omega
    simp only [List.length_cons, List.replicate_succ, List.map_cons, Nat.ofDigits_cons, ← ih hfs,
      Nat.shiftRight_eq_div_pow]
    generalize Nat.ofDigits 256 fs = n at hnext ⊢
    have hsplit : f + 256 * n + (f + 256 * n) / 2 ^ 4 =
        (f + f / 16 + 16 * (n % 16)) + 256 * (n + n / 2 ^ 4) := by omega
    have hmask : (f + f / 16 + 16 * (n % 16)) &&& 0x0F = f % 16 + f / 16 := by
      rw [show 0x0F = 2 ^ 4 - 1 from rfl, Nat.and_two_pow_sub_one_eq_mod]
      omega
    rw [hsplit, and_add_byte (by omega) (by decide), hmask]

private def onesOfPairs (b : Nat) : Nat := b - (b >>> 1 &&& 0x55)

private def onesOfHalves (b : Nat) : Nat := (b &&& 0x33) + (b >>> 2 &&& 0x33)

private theorem HasBytes.inPairs (h : HasBytes w bs) :
    HasBytes (w - (w >>> (1 : UInt32) &&& (0x55555555 : UInt32))) (bs.map onesOfPairs) := by
  have hid : HasBytes w (bs.map id) := (List.map_id bs).symm ▸ h
  exact hid.sub (h.shiftRight_and (b := 0x55) rfl (by decide) (by decide))
    fun b _ => Nat.and_le_left.trans (Nat.shiftRight_le ..)

private theorem HasBytes.inHalves (h : HasBytes w bs) :
    HasBytes ((w &&& (0x33333333 : UInt32)) + (w >>> (2 : UInt32) &&& (0x33333333 : UInt32)))
      (bs.map onesOfHalves) := by
  refine (h.and (b := 0x33) rfl (by decide)).add
    (h.shiftRight_and (b := 0x33) rfl (by decide) (by decide)) fun b _ => ?_
  exact Nat.lt_of_le_of_lt (Nat.add_le_add Nat.and_le_right Nat.and_le_right) (by decide)

/-- No half of a byte has more than four ones, so the sums of neighbouring halves fit in a half. -/
private theorem onesOfHalves_spec {b : Nat} (h : b < 256) :
    let n := onesOfHalves (onesOfPairs b)
    n % 16 ≤ 4 ∧ n / 16 ≤ 4 ∧ n % 16 + n / 16 = (List.range 8).countP b.testBit := by
  have hall : ∀ b : Fin 256, let n := onesOfHalves (onesOfPairs b)
      n % 16 ≤ 4 ∧ n / 16 ≤ 4 ∧ n % 16 + n / 16 = (List.range 8).countP b.val.testBit := by
    decide +kernel
  exact hall ⟨b, h⟩

private theorem HasBytes.addHalves (h : HasBytes w bs) (hbs : ∀ b ∈ bs, b % 16 ≤ 4 ∧ b / 16 ≤ 4) :
    HasBytes (w + w >>> (4 : UInt32) &&& (0x0F0F0F0F : UInt32))
      (bs.map fun b => b % 16 + b / 16) where
  length_eq := by rw [List.length_map, h.length_eq]
  lt := List.forall_mem_map.2 fun b hb => by
    have := hbs b hb
    omega
  toNat_eq := by
    have hlt : w.toNat < 0x45 * 2 ^ 24 := by
      obtain ⟨a, b, c, d, rfl⟩ := List.length_eq_four.1 h.length_eq
      have hd := hbs d (by simp)
      have := h.lt a (by simp)
      have := h.lt b (by simp)
      have := h.lt c (by simp)
      rw [h.toNat_eq]
      simp only [Nat.ofDigits_cons, Nat.ofDigits_nil]
      omega
    have hshift : (w >>> (4 : UInt32)).toNat = w.toNat >>> 4 := UInt32.toNat_shiftRight ..
    rw [← ofDigits_add_halves hbs, h.length_eq, ← h.toNat_eq, UInt32.toNat_and, UInt32.toNat_add,
      hshift, Nat.mod_eq_of_lt]
    · rfl
    · rw [Nat.shiftRight_eq_div_pow]
      omega

private theorem countP_testBit_add_byte {a : Nat} (ha : a < 256) (n k : Nat) :
    (List.range (8 + k)).countP (a + 256 * n).testBit =
      (List.range 8).countP a.testBit + (List.range k).countP n.testBit := by
  have hbit (i : Nat) :
      (a + 256 * n).testBit i = if i < 8 then a.testBit i else n.testBit (i - 8) := by
    rw [Nat.add_comm]
    exact Nat.testBit_two_pow_mul_add n (i := 8) ha i
  rw [List.range_add, List.countP_append, List.countP_map]
  congr 1
  · refine List.countP_congr fun i hi => ?_
    rw [hbit, if_pos (List.mem_range.1 hi)]
  · refine List.countP_congr fun i _ => ?_
    simp [hbit]

private theorem countP_testBit_ofDigits (hbs : ∀ b ∈ bs, b < 256) :
    (List.range (8 * bs.length)).countP (Nat.ofDigits 256 bs).testBit =
      (bs.map fun b => (List.range 8).countP b.testBit).sum := by
  induction bs with
  | nil => rfl
  | cons a bs ih =>
    obtain ⟨ha, hbs⟩ := List.forall_mem_cons.1 hbs
    rw [List.length_cons, Nat.mul_succ, Nat.add_comm, Nat.ofDigits_cons,
      countP_testBit_add_byte ha, ih hbs, List.map_cons, List.sum_cons]

/-- The product adds all bytes up in the highest one. -/
private theorem toNat_mul_shiftRight (h : HasBytes w bs) (hsum : bs.sum < 256) :
    ((w * 0x01010101) >>> (24 : UInt32)).toNat = bs.sum := by
  obtain ⟨a, b, c, d, rfl⟩ := List.length_eq_four.1 h.length_eq
  have hw := h.toNat_eq
  simp only [Nat.ofDigits_cons, Nat.ofDigits_nil, List.sum_cons, List.sum_nil] at hw hsum ⊢
  have hmul : w.toNat * 0x01010101 = a + 256 * (a + b + 256 * (a + b + c)) +
      2 ^ 24 * (a + (b + (c + d)) + 256 * (b + c + d + 256 * (c + d + 256 * d))) := by
    rw [hw]
    omega
  generalize b + c + d + 256 * (c + d + 256 * d) = high at hmul
  rw [UInt32.toNat_shiftRight, UInt32.toNat_mul, Nat.shiftRight_eq_div_pow]
  change w.toNat * 0x01010101 % 2 ^ 32 / 2 ^ 24 = _
  have hlow : a + 256 * (a + b + 256 * (a + b + c)) < 2 ^ 24 := by omega
  generalize a + 256 * (a + b + 256 * (a + b + c)) = low at hmul hlow
  generalize a + (b + (c + d)) = sum at hmul hsum
  rw [hmul]
  clear hmul hw h
  omega

/-- Counting with masks and sums counts the ones: no sum of the ones of some bits leaves the place
that it has in its byte. -/
theorem toNat_maskedCount (w : UInt32) : (maskedCount w).toNat = popCount w := by
  obtain ⟨bs, hw⟩ := exists_bytes w
  have hspec (b : Nat) (hb : b ∈ bs) := onesOfHalves_spec (hw.lt b hb)
  have hbytes := hw.inPairs.inHalves.addHalves (List.forall_mem_map.2 (List.forall_mem_map.2
    fun b hb => ⟨(hspec b hb).1, (hspec b hb).2.1⟩))
  have hbits : ((bs.map onesOfPairs).map onesOfHalves).map (fun b => b % 16 + b / 16) =
      bs.map fun b => (List.range 8).countP b.testBit := by
    rw [List.map_map, List.map_map]
    exact List.map_congr_left fun b hb => (hspec b hb).2.2
  rw [hbits] at hbytes
  have hsum : (bs.map fun b => (List.range 8).countP b.testBit).sum = popCount w := by
    rw [← countP_testBit_ofDigits hw.lt, hw.length_eq, ← hw.toNat_eq, popCount]
  rw [← hsum]
  refine toNat_mul_shiftRight hbytes ?_
  rw [hsum]
  exact Nat.lt_of_le_of_lt List.countP_le_length (by decide)

theorem maskedCounts_eq (ws : List UInt32) : maskedCounts ws = popCounts ws := by
  unfold maskedCounts popCounts
  simp only [toNat_maskedCount]

end Counting

end CardSearch
