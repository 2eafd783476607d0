import CardSearch.Proofs.VersionSet.Laws
import CardSearch.VersionSet.Words
import Mathlib.Data.List.Flatten

/-!
# Version sets in words are lawful

A member is a bit that is set. Cutting off the bits at and above the capacity keeps those below
it, so the operations on words act on the members bit by bit.
-/

namespace CardSearch

theorem testBit_oneBit {i : Nat} (h : i < 32) (j : Nat) :
    (oneBit i).toNat.testBit j = decide (i = j) := by
  have : (2 : Nat) ^ i < 2 ^ 32 := Nat.pow_lt_pow_right (by decide) h
  rw [oneBit, UInt32.toNat_ofNat', Nat.one_shiftLeft, Nat.mod_eq_of_lt this, Nat.testBit_two_pow]

theorem popCounts_append (ws ws' : List UInt32) :
    popCounts (ws ++ ws') = popCounts ws + popCounts ws' := by
  induction ws with
  | nil => simp [popCounts]
  | cons w ws ih =>
    simp only [popCounts, List.cons_append, List.foldr_cons] at ih ⊢
    rw [ih, Nat.add_assoc]

theorem testBit_not {i : Nat} (h : i < 32) (w : UInt32) :
    (~~~ w).toNat.testBit i = !w.toNat.testBit i := by
  rw [← UInt32.toNat_toBitVec, UInt32.toBitVec_not, BitVec.testBit_toNat, BitVec.getLsbD_not,
    decide_eq_true h, Bool.true_and, ← UInt32.toNat_toBitVec, BitVec.testBit_toNat]

theorem testBit_and_lowMask {n : Nat} (h : n ≤ 32) (w : UInt32) (i : Nat) :
    (w &&& lowMask n).toNat.testBit i = (decide (i < n) && w.toNat.testBit i) := by
  rw [toNat_and_lowMask h, Nat.one_shiftLeft, Nat.testBit_mod_two_pow]

theorem testBit_lowMask_full {i : Nat} (h : i < 32) : (lowMask 32).toNat.testBit i = true := by
  rw [toNat_lowMask (Nat.le_refl 32), Nat.one_shiftLeft, Nat.testBit_two_pow_sub_one,
    decide_eq_true h]

theorem contains_foldl {σ : Type} {contains : σ → Nat → Bool} {removeOne : σ → Nat → σ}
    (h : ∀ s v w, contains (removeOne s w) v = (contains s v && decide (v ≠ w))) (s : σ)
    (vs : List Nat) (v : Nat) :
    contains (vs.foldl removeOne s) v = (contains s v && decide (v ∉ vs)) := by
  induction vs generalizing s with
  | nil => simp
  | cons w vs ih =>
    rw [List.foldl_cons, ih, h]
    simp [Bool.and_assoc]

theorem capacity_foldl {σ : Type} {capacity : σ → Nat} {removeOne : σ → Nat → σ}
    (h : ∀ s w, capacity (removeOne s w) = capacity s) (s : σ) (vs : List Nat) :
    capacity (vs.foldl removeOne s) = capacity s := by
  induction vs generalizing s with
  | nil => rfl
  | cons w vs ih => rw [List.foldl_cons, ih, h]

theorem pairwise_filter_range (p : Nat → Bool) (n : Nat) :
    ((List.range n).filter p).Pairwise (· < ·) := List.pairwise_lt_range.filter p

/-- An ascending list is made of the members below a bound. -/
theorem filter_range_eq_of_mem_iff {p : Nat → Bool} {n : Nat} {vs : List Nat}
    (hv : vs.Pairwise (· < ·)) (h : ∀ v, v ∈ vs ↔ v < n ∧ p v = true) :
    (List.range n).filter p = vs :=
  eq_of_mem_iff_of_ascending (pairwise_filter_range p n) hv (fun v => by simp [h])

namespace WordSet

@[simp] theorem capacity_withBits (s : WordSet) (bits : UInt32) :
    (s.withBits bits).capacity = s.capacity := rfl

theorem contains_withBits (s : WordSet) (bits : UInt32) (v : Nat) :
    (s.withBits bits).contains v = (decide (v < s.capacity) && bits.toNat.testBit v) := by
  have hbit : (s.withBits bits).bits.toNat.testBit v =
      (decide (v < s.capacity) && bits.toNat.testBit v) :=
    testBit_and_lowMask s.capacity_le bits v
  rw [contains, hbit, capacity_withBits, ← Bool.and_assoc, Bool.and_self]

theorem lt_of_contains {s : WordSet} {v : Nat} (h : s.contains v = true) : v < s.capacity := by
  simp only [contains, Bool.and_eq_true, decide_eq_true_eq] at h
  exact h.1

theorem testBit_eq_contains (s : WordSet) (v : Nat) : s.bits.toNat.testBit v = s.contains v := by
  by_cases h : v < s.capacity
  · simp [contains, h]
  · have hbits := s.bits_lt
    rw [Nat.one_shiftLeft] at hbits
    have : s.bits.toNat < 2 ^ v :=
      Nat.lt_of_lt_of_le hbits (Nat.pow_le_pow_right (by decide) (Nat.not_lt.1 h))
    simp [contains, h, Nat.testBit_lt_two_pow this]

private theorem popCount_eq (s : WordSet) :
    popCount s.bits = ((List.range s.capacity).filter s.contains).length := by
  rw [popCount, List.countP_eq_length_filter, filter_range_eq_of_mem_iff]
  · exact pairwise_filter_range ..
  · intro v
    have := @lt_of_contains s v
    have := s.capacity_le
    simp only [List.mem_filter, List.mem_range, testBit_eq_contains]
    grind

theorem contains_add (s : WordSet) (v w : Nat) :
    (s.add w).contains v = (s.contains v || decide (v = w ∧ w < s.capacity)) := by
  by_cases hw : w < s.capacity
  · have := s.capacity_le
    simp only [add, hw, if_true, contains_withBits, UInt32.toNat_or, Nat.testBit_or,
      testBit_oneBit (show w < 32 by omega), testBit_eq_contains]
    by_cases hv : v = w
    · simp [hv, hw]
    · have := @lt_of_contains s v
      grind
  · simp [add, hw]

private theorem contains_removeOne (s : WordSet) (v w : Nat) :
    (s.removeOne w).contains v = (s.contains v && decide (v ≠ w)) := by
  by_cases hw : w < s.capacity
  · simp only [removeOne, hw, if_true, contains_withBits]
    by_cases hv : v < s.capacity
    · have := s.capacity_le
      rw [UInt32.toNat_and, Nat.testBit_and, testBit_not (by omega), testBit_oneBit (by omega),
        testBit_eq_contains]
      simp [hv, eq_comm]
    · simp [contains, hv]
  · have := @lt_of_contains s v
    simp only [removeOne, hw, if_false]
    grind

theorem contains_remove (s : WordSet) (vs : List Nat) (v : Nat) :
    (vs.foldl removeOne s).contains v = (s.contains v && decide (v ∉ vs)) :=
  contains_foldl (fun s v w => s.contains_removeOne v w) s vs v

private theorem capacity_removeOne (s : WordSet) (w : Nat) :
    (s.removeOne w).capacity = s.capacity := by
  unfold removeOne
  split <;> rfl

theorem mem_toList (s : WordSet) (v : Nat) :
    v ∈ VersionSet.toList s ↔ s.contains v = true := by
  simp only [VersionSet.toList, List.mem_filter, List.mem_range]
  exact ⟨And.right, fun h => ⟨lt_of_contains h, h⟩⟩

instance : LawfulVersionSet WordSet where
  ascending s := pairwise_filter_range ..
  lt_capacity s v h := lt_of_contains ((mem_toList s v).1 h)
  contains_iff s v := (mem_toList s v).symm
  size_eq s := popCount_eq s
  capacity_empty h := rfl
  toList_empty h := by simp [VersionSet.toList, VersionSet.empty, contains, empty]
  capacity_add s w := by
    simp only [VersionSet.capacity, VersionSet.add, add]
    split <;> rfl
  mem_add s v w := by
    simp only [mem_toList]
    exact (Bool.eq_iff_iff.1 (contains_add s v w)).trans (by simp [VersionSet.capacity])
  capacity_remove s vs := capacity_foldl capacity_removeOne s vs
  mem_remove s vs _ v := by
    simp only [mem_toList]
    exact (Bool.eq_iff_iff.1 (contains_remove s vs v)).trans (by simp)
  capacity_clear s := rfl
  toList_clear s := by
    simp [VersionSet.toList, VersionSet.clear, contains_withBits]
  capacity_fill s := rfl
  toList_fill s := by
    refine filter_range_eq_of_mem_iff List.pairwise_lt_range (fun v => ?_)
    have := s.capacity_le
    simp only [VersionSet.fill, VersionSet.capacity, capacity_withBits, contains_withBits,
      List.mem_range]
    by_cases h : v < s.capacity
    · simp [h, testBit_lowMask_full (show v < 32 by omega)]
    · simp [h]
  capacity_invert s := rfl
  mem_invert s v := by
    simp only [mem_toList, VersionSet.invert, VersionSet.capacity, contains_withBits]
    by_cases h : v < s.capacity
    · have := s.capacity_le
      rw [testBit_not (by omega), testBit_eq_contains]
      simp [h]
    · simp [h]
  capacity_unite s t := rfl
  mem_unite {s t} h v := by
    have h : s.capacity = t.capacity := h
    simp only [mem_toList, VersionSet.unite, contains_withBits, UInt32.toNat_or, Nat.testBit_or,
      testBit_eq_contains]
    have := @lt_of_contains s v
    have := @lt_of_contains t v
    grind
  capacity_subtract s t := rfl
  mem_subtract {s t} h v := by
    simp only [mem_toList, VersionSet.subtract, contains_withBits, UInt32.toNat_and,
      Nat.testBit_and]
    by_cases hv : v < s.capacity
    · have := s.capacity_le
      rw [testBit_not (by omega), testBit_eq_contains, testBit_eq_contains]
      simp [hv]
    · have := @lt_of_contains s v
      grind

end WordSet

namespace WordsSet

theorem lt_wordsFor {v n : Nat} (h : v < n) : v / 32 < wordsFor n := by
  unfold wordsFor
  omega

theorem word_eq (s : WordsSet) {i : Nat} (h : i < wordsFor s.capacity) : s.word i = s.words[i] := by
  simp [word, h]

/-- A bit below the capacity is one of those that are kept. -/
theorem mod_lt_mask {v n : Nat} (h : v < n) : v % 32 < min 32 (n - 32 * (v / 32)) := by
  omega

private theorem words_ofWords {n : Nat} (word : Fin (wordsFor n) → UInt32) (i : Fin (wordsFor n)) :
    (ofWords word).words[i] = word i &&& lowMask (min 32 (n - 32 * i)) :=
  Vector.getElem_ofFn i.isLt

theorem contains_eq (s : WordsSet) {v : Nat} (h : v < s.capacity) :
    s.contains v = (s.word (v / 32)).toNat.testBit (v % 32) := by
  rw [contains, decide_eq_true h, Bool.true_and]

theorem contains_ofWords {n : Nat} (word : Fin (wordsFor n) → UInt32) {v : Nat} (h : v < n) :
    (ofWords word).contains v = (word ⟨v / 32, lt_wordsFor h⟩).toNat.testBit (v % 32) := by
  rw [contains_eq (ofWords word) h, word_eq _ (lt_wordsFor h),
    ← Fin.getElem_fin _ ⟨v / 32, lt_wordsFor h⟩, words_ofWords,
    testBit_and_lowMask (Nat.min_le_left ..), decide_eq_true (mod_lt_mask h), Bool.true_and]

theorem lt_of_contains {s : WordsSet} {v : Nat} (h : s.contains v = true) : v < s.capacity := by
  simp only [contains, Bool.and_eq_true, decide_eq_true_eq] at h
  exact h.1

theorem contains_eq_false {s : WordsSet} {v : Nat} (h : ¬ v < s.capacity) :
    s.contains v = false := by
  simp [contains, h]

@[simp] theorem capacity_update (s : WordsSet) (w : Nat) (change : UInt32 → UInt32 → UInt32) :
    (s.update w change).capacity = s.capacity := by
  unfold update
  split <;> rfl

/-- Changing the bit of one value leaves the others as they are. -/
theorem contains_update (s : WordsSet) {v w : Nat} (hv : v < s.capacity) (hw : w < s.capacity)
    (change : UInt32 → UInt32 → UInt32) :
    (s.update w change).contains v =
      if v / 32 = w / 32 then
        (change (s.word (v / 32)) (oneBit (w % 32))).toNat.testBit (v % 32)
      else s.contains v := by
  rw [update, if_pos hw, contains_ofWords _ hv]
  by_cases h : v / 32 = w / 32
  · simp [h, word_eq s (lt_wordsFor hw)]
  · simp [h, contains_eq s hv, word_eq s (lt_wordsFor hv)]

theorem contains_add (s : WordsSet) (v w : Nat) :
    (s.add w).contains v = (s.contains v || decide (v = w ∧ w < s.capacity)) := by
  by_cases hw : w < s.capacity
  · by_cases hv : v < s.capacity
    · rw [add, contains_update s hv hw, UInt32.toNat_or, Nat.testBit_or,
        testBit_oneBit (by omega), ← contains_eq s hv]
      have : v = w ↔ v / 32 = w / 32 ∧ w % 32 = v % 32 := by omega
      grind
    · have : v ≠ w := by omega
      simp [contains_eq_false, hv, add, this]
  · simp [add, update, hw]

private theorem contains_removeOne (s : WordsSet) (v w : Nat) :
    (s.removeOne w).contains v = (s.contains v && decide (v ≠ w)) := by
  by_cases hv : v < s.capacity
  · by_cases hw : w < s.capacity
    · rw [removeOne, contains_update s hv hw, UInt32.toNat_and, Nat.testBit_and,
        testBit_not (by omega), testBit_oneBit (by omega), ← contains_eq s hv]
      have : v = w ↔ v / 32 = w / 32 ∧ w % 32 = v % 32 := by omega
      grind
    · have : v ≠ w := by omega
      simp [removeOne, update, hw, this]
  · simp [contains_eq_false, hv, removeOne]

theorem contains_remove (s : WordsSet) (vs : List Nat) (v : Nat) :
    (vs.foldl removeOne s).contains v = (s.contains v && decide (v ∉ vs)) :=
  contains_foldl (fun s v w => s.contains_removeOne v w) s vs v

private theorem capacity_removeOne (s : WordsSet) (w : Nat) :
    (s.removeOne w).capacity = s.capacity :=
  capacity_update ..

@[simp] theorem capacity_map (s : WordsSet) (f : Nat → UInt32 → UInt32) :
    (s.map f).capacity = s.capacity := rfl

private theorem contains_map (s : WordsSet) (f : Nat → UInt32 → UInt32) {v : Nat}
    (h : v < s.capacity) :
    (s.map f).contains v = (f (v / 32) (s.word (v / 32))).toNat.testBit (v % 32) := by
  rw [map, contains_ofWords _ h, word_eq s (lt_wordsFor h), Fin.getElem_fin]

/-- Below the capacity the set is read off the words bit by bit, and there are no other bits. -/
theorem testBit_word (s : WordsSet) (v : Nat) :
    (s.word (v / 32)).toNat.testBit (v % 32) = s.contains v := by
  by_cases h : v < s.capacity
  · rw [contains_eq s h, word_eq s (lt_wordsFor h)]
  · rw [contains_eq_false h]
    by_cases hi : v / 32 < wordsFor s.capacity
    · have hlow : ¬ v % 32 < min 32 (s.capacity - 32 * (v / 32)) := by omega
      have hmask := s.masked ⟨v / 32, hi⟩
      rw [word_eq s hi, ← Fin.getElem_fin s.words ⟨v / 32, hi⟩, hmask,
        testBit_and_lowMask (Nat.min_le_left ..), decide_eq_false hlow, Bool.false_and]
    · simp [word, hi]

private theorem popCounts_range (s : WordsSet) (n : Nat) :
    popCounts ((List.range n).map s.word) =
      ((List.range (32 * n)).filter s.contains).length := by
  induction n with
  | zero => rfl
  | succ n ih =>
    have hword : popCount (s.word n) =
        ((List.range 32).filter (fun i => s.contains (32 * n + i))).length := by
      rw [popCount, List.countP_eq_length_filter]
      congr 1
      refine List.filter_congr (fun i hi => ?_)
      have hi := List.mem_range.1 hi
      rw [← testBit_word, show (32 * n + i) / 32 = n by omega, show (32 * n + i) % 32 = i by omega]
    rw [List.range_succ, List.map_append, popCounts_append, ih, Nat.mul_succ, List.range_add,
      List.filter_append, List.length_append, List.filter_map, List.length_map]
    simp [popCounts, hword, Function.comp_def]

theorem toList_words (s : WordsSet) :
    s.words.toList = (List.range (wordsFor s.capacity)).map s.word := by
  refine List.ext_getElem (by simp) (fun i hi _ => ?_)
  simp only [Vector.length_toList] at hi
  simp [word_eq s hi]

private theorem size_eq_length (s : WordsSet) :
    popCounts s.words.toList = ((List.range s.capacity).filter s.contains).length := by
  have hrange : (List.range s.capacity).filter s.contains =
      (List.range (32 * wordsFor s.capacity)).filter s.contains := by
    refine filter_range_eq_of_mem_iff (pairwise_filter_range ..) (fun v => ?_)
    have := @lt_of_contains s v
    have : v < s.capacity → v < 32 * wordsFor s.capacity := fun h => by
      have := lt_wordsFor h
      omega
    simp only [List.mem_filter, List.mem_range]
    grind
  rw [toList_words, hrange, popCounts_range]

theorem mem_toList (s : WordsSet) (v : Nat) :
    v ∈ VersionSet.toList s ↔ s.contains v = true := by
  simp only [VersionSet.toList, List.mem_filter, List.mem_range]
  exact ⟨And.right, fun h => ⟨lt_of_contains h, h⟩⟩

instance : LawfulVersionSet WordsSet where
  ascending s := pairwise_filter_range ..
  lt_capacity s v h := lt_of_contains ((mem_toList s v).1 h)
  contains_iff s v := (mem_toList s v).symm
  size_eq s := size_eq_length s
  capacity_empty h := rfl
  toList_empty {n} h := by
    refine List.filter_eq_nil_iff.2 (fun v hv => ?_)
    have hv : v < n := List.mem_range.1 hv
    change ¬ (ofWords fun (_ : Fin (wordsFor n)) => 0).contains v = true
    rw [contains_ofWords _ hv]
    simp
  capacity_add s w := capacity_update ..
  mem_add s v w := by
    simp only [mem_toList]
    exact (Bool.eq_iff_iff.1 (contains_add s v w)).trans (by simp [VersionSet.capacity])
  capacity_remove s vs := capacity_foldl capacity_removeOne s vs
  mem_remove s vs _ v := by
    simp only [mem_toList]
    exact (Bool.eq_iff_iff.1 (contains_remove s vs v)).trans (by simp)
  capacity_clear s := rfl
  toList_clear s := by
    refine List.filter_eq_nil_iff.2 (fun v hv => ?_)
    change ¬ (s.map fun _ _ => 0).contains v = true
    rw [contains_map s _ (List.mem_range.1 hv)]
    simp
  capacity_fill s := rfl
  toList_fill s := by
    refine List.filter_eq_self.2 (fun v hv => ?_)
    change (s.map fun _ _ => lowMask 32).contains v = true
    rw [contains_map s _ (List.mem_range.1 hv)]
    exact testBit_lowMask_full (Nat.mod_lt _ (by decide))
  capacity_invert s := rfl
  mem_invert s v := by
    simp only [mem_toList, VersionSet.invert, VersionSet.capacity]
    by_cases h : v < s.capacity
    · rw [contains_map s _ h, testBit_not (by omega), ← contains_eq s h]
      simp [h]
    · simp [contains_eq_false, h]
  capacity_unite s t := rfl
  mem_unite {s t} h v := by
    have h : s.capacity = t.capacity := h
    simp only [mem_toList, VersionSet.unite]
    by_cases hv : v < s.capacity
    · rw [contains_map s _ hv, UInt32.toNat_or, Nat.testBit_or, testBit_word, testBit_word,
        Bool.or_eq_true]
    · simp [contains_eq_false, hv, h ▸ hv]
  capacity_subtract s t := rfl
  mem_subtract {s t} h v := by
    simp only [mem_toList, VersionSet.subtract]
    by_cases hv : v < s.capacity
    · rw [contains_map s _ hv, UInt32.toNat_and, Nat.testBit_and, testBit_not (by omega),
        testBit_word, testBit_word]
      simp
    · simp [contains_eq_false, hv]

end WordsSet

end CardSearch
