import CardSearch.Proofs.VersionSet.Mathematical
import CardSearch.Proofs.VersionSet.WordBits

/-!
# Version sets without memory act as values

The word of a handle is the word of the value, and the number that it counts is the number of bits
that are set.
-/

namespace CardSearch.InlineSet

variable {s t : InlineSet} {S T : WordSet} {v : Nat}

structure IsOf (s : InlineSet) (S : WordSet) : Prop where
  bits_eq : s.bits = S.bits
  capacity_eq : s.capacity = S.capacity
  size_eq : s.size = VersionSet.size S

def layout : Layout InlineSet Unit WordSet where
  region _ := ⟨0, 0⟩
  Holds _ := IsOf
  Changed _ _ _ := True

/-- The word of a value is known by its bits. -/
theorem eq_bits_iff {w : UInt32} :
    w = S.bits ↔ ∀ i < 32, w.toNat.testBit i = S.contains i := by
  constructor
  · rintro rfl i _
    exact S.testBit_eq_contains i
  · exact fun h => eq_of_testBit_eq fun i hi => (h i hi).trans (S.testBit_eq_contains i).symm

theorem testBit_fullMask {i : Nat} (h : s.capacity ≤ 32) (hi : i < 32) :
    s.fullMask.toNat.testBit i = decide (i < s.capacity) := by
  unfold fullMask
  split
  · next hzero => simp [hzero]
  · rw [testBit_tailMask hi]
    have : s.capacity % 32 = 0 ∨ i < s.capacity % 32 ↔ i < s.capacity := by omega
    simp [this]

namespace IsOf

theorem hasBit_eq (h : IsOf s S) (hv : v < 32) : hasBit s.bits v = S.contains v := by
  rw [CardSearch.hasBit_eq _ hv, h.bits_eq, S.testBit_eq_contains]

theorem toList_eq (h : IsOf s S) :
    (List.range s.capacity).filter (hasBit s.bits) = VersionSet.toList S := by
  rw [h.capacity_eq]
  refine List.filter_congr fun v hv => h.hasBit_eq ?_
  have := List.mem_range.1 hv
  have := S.capacity_le
  omega

theorem add (h : IsOf s S) (hv : v < S.capacity) : IsOf (s.add v) (VersionSet.add S v) := by
  have hlt := S.capacity_le
  have hbits : s.bits ||| oneBit v = (VersionSet.add S v).bits := eq_bits_iff.2 fun i _ => by
    rw [testBit_or_oneBit _ (by omega), h.bits_eq, S.testBit_eq_contains]
    exact .trans (by simp [hv, eq_comm]) (S.contains_add i v).symm
  have hself : s.bits ||| oneBit v = s.bits ↔ S.contains v = true := by
    rw [or_oneBit_eq_self_iff _ (by omega), h.bits_eq, S.testBit_eq_contains]
  have hcap := h.capacity_eq.trans (LawfulVersionSet.capacity_add S v).symm
  have hsize := MathSet.size_add S hv
  simp only [VersionSet.contains, ← hself, ← h.size_eq] at hsize
  simp only [InlineSet.add]
  split
  · next hsame =>
    rw [if_pos hsame] at hsize
    exact ⟨hsame.symm.trans hbits, hcap, hsize.symm⟩
  · next hother =>
    rw [if_neg hother] at hsize
    exact ⟨hbits, hcap, hsize.symm⟩

theorem removeMember (h : IsOf s S) (hv : VersionSet.contains S v = true) :
    IsOf { s with bits := s.bits &&& ~~~ oneBit v, size := s.size - 1 }
      (VersionSet.remove S [v]) where
  bits_eq := eq_bits_iff.2 fun i hi => by
    have hlt : v < S.capacity := WordSet.lt_of_contains hv
    have := S.capacity_le
    rw [testBit_and_not_oneBit _ hi (by omega), h.bits_eq, S.testBit_eq_contains]
    exact .trans (by simp [eq_comm]) (S.contains_remove [v] i).symm
  capacity_eq := h.capacity_eq.trans (LawfulVersionSet.capacity_remove S [v]).symm
  size_eq := by rw [MathSet.size_remove, if_pos hv, h.size_eq]

/-- Taking out a value that is no member changes nothing. -/
theorem removeOther (h : IsOf s S) (hv : ¬ VersionSet.contains S v = true) :
    IsOf s (VersionSet.remove S [v]) where
  bits_eq := eq_bits_iff.2 fun i _ => by
    have hv : ¬ S.contains v = true := hv
    rw [h.bits_eq, S.testBit_eq_contains]
    refine .trans ?_ (S.contains_remove [v] i).symm
    by_cases hi : i = v <;> simp_all
  capacity_eq := h.capacity_eq.trans (LawfulVersionSet.capacity_remove S [v]).symm
  size_eq := by rw [MathSet.size_remove, if_neg hv, h.size_eq]

private theorem remove (h : IsOf s S) (hv : v < S.capacity) :
    IsOf (s.remove v) (VersionSet.remove S [v]) := by
  have hlt := S.capacity_le
  have hself : s.bits &&& ~~~ oneBit v = s.bits ↔ ¬ VersionSet.contains S v = true := by
    rw [and_not_oneBit_eq_self_iff _ (by omega), h.bits_eq, S.testBit_eq_contains,
      ← Bool.not_eq_true]
    rfl
  simp only [InlineSet.remove]
  split
  · next hsame => exact h.removeOther (hself.1 hsame)
  · next hother => exact h.removeMember (not_not.1 (mt hself.2 hother))

theorem clear (h : IsOf s S) : IsOf { s with bits := 0, size := 0 } (VersionSet.clear S) where
  bits_eq := eq_bits_iff.2 fun i _ => by simp [VersionSet.clear, WordSet.contains_withBits]
  capacity_eq := h.capacity_eq
  size_eq := (MathSet.size_clear S).symm

theorem fill (h : IsOf s S) :
    IsOf { s with bits := s.fullMask, size := s.capacity } (VersionSet.fill S) where
  bits_eq := eq_bits_iff.2 fun i hi => by
    have := S.capacity_le
    rw [testBit_fullMask (by rw [h.capacity_eq]; omega) hi, h.capacity_eq]
    simp [VersionSet.fill, WordSet.contains_withBits, testBit_lowMask_full hi]
  capacity_eq := h.capacity_eq
  size_eq := h.capacity_eq.trans (MathSet.size_fill S).symm

theorem invert (h : IsOf s S) :
    IsOf { s with bits := ~~~ s.bits &&& s.fullMask, size := s.capacity - s.size }
      (VersionSet.invert S) where
  bits_eq := eq_bits_iff.2 fun i hi => by
    have := S.capacity_le
    rw [UInt32.toNat_and, Nat.testBit_and,
      testBit_fullMask (by rw [h.capacity_eq]; omega) hi, h.capacity_eq, h.bits_eq]
    simp [VersionSet.invert, WordSet.contains_withBits, Bool.and_comm]
  capacity_eq := h.capacity_eq
  size_eq := by
    rw [MathSet.size_invert]
    exact congr (congrArg _ h.capacity_eq) h.size_eq

theorem recounted {w : UInt32} (h : s.capacity = S.capacity) (hw : w = S.bits) :
    IsOf (s.recounted w) S :=
  ⟨hw, h, (toNat_maskedCount w).trans (congrArg popCount hw)⟩

private theorem unite (h : IsOf s S) (h' : IsOf t T) (hcap : S.capacity = T.capacity) :
    IsOf (s.recounted (s.bits ||| t.bits)) (VersionSet.unite S T) := by
  refine recounted h.capacity_eq (eq_bits_iff.2 fun i _ => ?_)
  rw [UInt32.toNat_or, Nat.testBit_or, h.bits_eq, h'.bits_eq, S.testBit_eq_contains,
    T.testBit_eq_contains]
  have := WordSet.lt_of_contains (s := S) (v := i)
  have := WordSet.lt_of_contains (s := T) (v := i)
  simp only [VersionSet.unite, WordSet.contains_withBits, UInt32.toNat_or, Nat.testBit_or,
    WordSet.testBit_eq_contains]
  grind

private theorem subtract (h : IsOf s S) (h' : IsOf t T) :
    IsOf (s.recounted (s.bits &&& ~~~ t.bits)) (VersionSet.subtract S T) := by
  refine recounted h.capacity_eq (eq_bits_iff.2 fun i hi => ?_)
  rw [h.bits_eq, h'.bits_eq, UInt32.toNat_and, Nat.testBit_and, testBit_not hi,
    S.testBit_eq_contains, T.testBit_eq_contains]
  have := WordSet.lt_of_contains (s := S) (v := i)
  simp only [VersionSet.subtract, WordSet.contains_withBits, UInt32.toNat_and, Nat.testBit_and,
    testBit_not hi, WordSet.testBit_eq_contains]
  grind

private theorem first_eq (h : IsOf s S) :
    (if s.bits = 0 then none else some (trailingZeros s.bits)) = VersionSet.first? S := by
  have hmem (v : Nat) : v ∈ VersionSet.toList S ↔ s.bits.toNat.testBit v = true := by
    rw [WordSet.mem_toList, h.bits_eq, S.testBit_eq_contains]
  split
  · next hzero =>
    have hnil : VersionSet.toList S = [] := List.eq_nil_iff_forall_not_mem.2 fun v hv => by
      simp [hmem, hzero] at hv
    rw [VersionSet.first?, hnil]
    rfl
  · next hone =>
    refine ((head?_eq_some_iff_isLeast (LawfulVersionSet.ascending S) _).2 ⟨?_, fun v hv => ?_⟩).symm
    · exact (hmem _).2 (testBit_trailingZeros hone)
    · exact trailingZeros_le ((hmem v).1 hv)

/-- Asking about the members among the values of an ascending list takes out those rejected. -/
theorem retainAmong (h : IsOf s S) {ε : Type} (keep : Nat → Except ε Bool) {vs : List Nat}
    (hvs : vs.Pairwise (· < ·)) (hlt : ∀ v ∈ vs, v < 32) :
    IsOf (s.retainAmong keep vs).1
        (VersionSet.remove S (rejected keep (vs.filter S.contains)).1) ∧
      (s.retainAmong keep vs).2 = (rejected keep (vs.filter S.contains)).2 := by
  induction vs generalizing s S with
  | nil => exact ⟨h, rfl⟩
  | cons v vs ih =>
    obtain ⟨hfirst, hrest⟩ := List.pairwise_cons.1 hvs
    obtain ⟨hv, hlt⟩ := List.forall_mem_cons.1 hlt
    simp only [InlineSet.retainAmong, h.hasBit_eq hv]
    by_cases hmem : S.contains v = true
    · rw [if_pos hmem, List.filter_cons_of_pos hmem, rejected]
      cases keep v with
      | error e => exact ⟨h, rfl⟩
      | ok b =>
        cases b with
        | true => exact ih h hrest hlt
        | false =>
          have hothers : vs.filter (VersionSet.remove S [v]).contains = vs.filter S.contains :=
            List.filter_congr fun w hw => by
              have hne : w ≠ v := Nat.ne_of_gt (hfirst w hw)
              exact (S.contains_remove [v] w).trans (by simp [hne])
          have hnext := ih (h.removeMember hmem) hrest hlt
          rw [hothers] at hnext
          exact hnext
    · rw [if_neg hmem, List.filter_cons_of_neg hmem]
      exact ih h hrest hlt

end IsOf

private theorem updates {s s' : InlineSet} (h : IsOf s' S) : layout.Updates () s (s', ()) S :=
  ⟨h, rfl, trivial⟩

private theorem makes {arena : Arena} (h : IsOf s S) (hempty : arena = { slots := 0 }) :
    layout.Makes () (s, ()) (S, arena) :=
  ⟨hempty.symm, h, fun h => ⟨.inl (Nat.le_refl _), h⟩⟩

/-- The operations on words in handles are those on values. -/
theorem lawful_layout : layout.Lawful where
  capacity_eq h := h.capacity_eq
  size_eq h := h.size_eq
  contains_eq {_ s S} h v := by
    have := S.capacity_le
    change (decide (v < s.capacity) && hasBit s.bits v) = S.contains v
    rw [h.capacity_eq]
    by_cases hv : v < S.capacity
    · rw [h.hasBit_eq (by omega), decide_eq_true hv, Bool.true_and]
    · simp [hv, WordSet.contains]
  first_eq h := h.first_eq
  toList_eq h := h.toList_eq
  arena_eq _ := rfl
  holds_of_changed _ _ h := h
  create _ n := by
    change Layout.Agrees _ _ ((InlineSet.create n).map _) (VersionSet.create _ n)
    by_cases hn : n ≤ 32
    · rw [VersionSet.create_eq n _ hn, InlineSet.create, if_neg (Nat.not_lt.2 hn)]
      exact .ok (makes ⟨rfl, rfl, (MathSet.size_empty hn).symm⟩ rfl)
    · rw [VersionSet.create_eq_error n _ hn, InlineSet.create, if_pos (Nat.lt_of_not_le hn)]
      exact .error _
  copy _ h := .ok (makes h rfl)
  add h hv := updates (h.add hv)
  push h hv _ := updates (h.add hv)
  remove h hv := updates (h.remove hv)
  clear h := updates h.clear
  fill h := updates h.fill
  invert h := updates h.invert
  unite h h' _ hcap := updates (h.unite h' hcap)
  subtract h h' _ _ := updates (h.subtract h')
  copyOnto {_ s t S T} h h' _ hcap :=
    updates ⟨h.bits_eq, h'.capacity_eq.trans hcap.symm, h.size_eq⟩
  retain {_ s S ε} keep h := by
    have hlt (v : Nat) (hv : v ∈ List.range s.capacity) : v < 32 := by
      have := List.mem_range.1 hv
      have := S.capacity_le
      have := h.capacity_eq
      omega
    obtain ⟨hnext, hfailure⟩ := h.retainAmong keep List.pairwise_lt_range hlt
    rw [h.capacity_eq] at hnext hfailure
    refine ⟨updates ?_, ?_⟩
    · rw [h.capacity_eq]
      exact hnext
    · change (s.retainAmong keep (List.range s.capacity)).2 = _
      rw [h.capacity_eq]
      exact hfailure

end CardSearch.InlineSet
