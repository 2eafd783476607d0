import CardSearch.Proofs.VersionSet.Mathematical
import CardSearch.Proofs.VersionSet.WordBits

/-!
# Version sets in a range of words act as values

The words in the range of a handle are those of the value, so an operation on a handle is right if
it is right bit by bit, counts right, and writes to its range only.
-/

namespace CardSearch.WordRange

variable {m m' : Memory UInt32} {s t : WordRange} {S T S' : WordsSet} {v : Nat}

def region (s : WordRange) : Region := ⟨s.offset, s.length⟩

/-- A handle has its words in slots that are handed out, and they are the words of a value, whose
members it counts. -/
structure IsOf (m : Memory UInt32) (s : WordRange) (S : WordsSet) : Prop where
  capacity_eq : s.capacity = S.capacity
  capacity_le : S.capacity ≤ mostVersions
  length_eq : s.length = wordsFor S.capacity
  size_eq : s.size = VersionSet.size S
  le_used : s.offset + s.length ≤ m.used
  used_le : m.used ≤ m.size
  read_eq {k : Nat} (h : k < s.length) : m.read (s.offset + k) = S.word k

def layout : Layout WordRange (Memory UInt32) WordsSet where
  region := region
  Holds := IsOf
  Changed := Memory.ChangedIn

/-- The words of a value are known by their bits. -/
theorem eq_word_iff {w : UInt32} {k : Nat} :
    w = S.word k ↔ ∀ i < 32, w.toNat.testBit i = S.contains (32 * k + i) := by
  have hbit (i : Nat) (hi : i < 32) : (S.word k).toNat.testBit i = S.contains (32 * k + i) := by
    rw [← S.testBit_word, show (32 * k + i) / 32 = k by omega, show (32 * k + i) % 32 = i by omega]
  constructor
  · rintro rfl i hi
    exact hbit i hi
  · exact fun h => eq_of_testBit_eq fun i hi => (h i hi).trans (hbit i hi).symm

namespace IsOf

theorem le_size (h : IsOf m s S) : s.offset + s.length ≤ m.size :=
  Nat.le_trans h.le_used h.used_le

theorem testBit_eq (h : IsOf m s S) {k i : Nat} (hk : k < s.length) (hi : i < 32) :
    (m.read (s.offset + k)).toNat.testBit i = S.contains (32 * k + i) := by
  rw [h.read_eq hk]
  exact eq_word_iff.1 rfl i hi

theorem lt_length (h : IsOf m s S) (hv : v < S.capacity) : v / 32 < s.length := by
  rw [h.length_eq]
  exact WordsSet.lt_wordsFor hv

theorem hasBit_eq (h : IsOf m s S) (hv : v < S.capacity) :
    hasBit (m.read (s.place v)) (v % 32) = S.contains v := by
  rw [CardSearch.hasBit_eq _ (by omega), place, h.testBit_eq (h.lt_length hv) (by omega),
    Nat.div_add_mod]

theorem of_changed (h : IsOf m s S) {r : Region} (hchanged : Memory.ChangedIn r m m')
    (hapart : s.region.Apart r) : IsOf m' s S where
  capacity_eq := h.capacity_eq
  capacity_le := h.capacity_le
  length_eq := h.length_eq
  size_eq := h.size_eq
  le_used := hchanged.used_eq ▸ h.le_used
  used_le := by
    rw [hchanged.size_eq, hchanged.used_eq]
    exact h.used_le
  read_eq {k} hk := by
    have hplace : s.region.Contains (s.offset + k) := ⟨Nat.le_add_right .., Nat.add_lt_add_left hk _⟩
    rw [hchanged.read_eq (hapart.symm.not_contains hplace), h.read_eq hk]

/-- A handle is left with a value by a change of its range that is right bit by bit. -/
theorem updates (h : IsOf m s S) (hchanged : Memory.ChangedIn s.region m m')
    (hcap : S'.capacity = S.capacity) {n : Nat} (hn : n = VersionSet.size S')
    (hbits : ∀ k < s.length, ∀ i < 32,
      (m'.read (s.offset + k)).toNat.testBit i = S'.contains (32 * k + i)) :
    layout.Updates m s ({ s with size := n }, m') S' where
  holds :=
    { capacity_eq := h.capacity_eq.trans hcap.symm
      capacity_le := hcap ▸ h.capacity_le
      length_eq := h.length_eq.trans (congrArg wordsFor hcap.symm)
      size_eq := hn
      le_used := hchanged.used_eq ▸ h.le_used
      used_le := by
        rw [hchanged.size_eq, hchanged.used_eq]
        exact h.used_le
      read_eq := fun {k} hk => eq_word_iff.2 (hbits k hk) }
  region_eq := rfl
  changed := hchanged

theorem changedIn_write (h : IsOf m s S) (hv : v < S.capacity) (w : UInt32) :
    Memory.ChangedIn s.region m (m.write (s.place v) w) :=
  .write m ⟨Nat.le_add_right .., Nat.add_lt_add_left (h.lt_length hv) _⟩ w

theorem read_write (h : IsOf m s S) (hv : v < S.capacity) (w : UInt32) (k : Nat) :
    (m.write (s.place v) w).read (s.offset + k) =
      if k = v / 32 then w else m.read (s.offset + k) := by
  have := h.lt_length hv
  have := h.le_size
  rw [Memory.read_write m (by unfold place; omega)]
  have : s.offset + k = s.place v ↔ k = v / 32 := by unfold place; omega
  simp [this]

theorem add (h : IsOf m s S) (hv : v < S.capacity) :
    layout.Updates m s (WordRange.add m s v) (VersionSet.add S v) := by
  have hcap := LawfulVersionSet.capacity_add S v
  have hsize : VersionSet.size (VersionSet.add S v) =
      if S.contains v then VersionSet.size S else VersionSet.size S + 1 := MathSet.size_add S hv
  have hcontains (w : Nat) : (VersionSet.add S v).contains w =
      (S.contains w || decide (w = v)) := (S.contains_add w v).trans (by simp [hv])
  simp only [WordRange.add, h.hasBit_eq hv]
  split
  · next hmem =>
    rw [if_pos hmem] at hsize
    refine h.updates (.refl _ m) hcap (h.size_eq.trans hsize.symm) fun k hk i hi => ?_
    rw [h.testBit_eq hk hi, hcontains]
    grind
  · next hmem =>
    rw [if_neg hmem] at hsize
    refine h.updates (h.changedIn_write hv _) hcap (by rw [h.size_eq, hsize]) fun k hk i hi => ?_
    rw [h.read_write hv, hcontains]
    split
    · next hword =>
      subst hword
      rw [testBit_or_oneBit _ (by omega), place, h.testBit_eq hk hi]
      have : v % 32 = i ↔ 32 * (v / 32) + i = v := by omega
      simp [this]
    · next hword =>
      have : 32 * k + i ≠ v := by omega
      simp [h.testBit_eq hk hi, this]

theorem remove (h : IsOf m s S) (hv : v < S.capacity) :
    layout.Updates m s (WordRange.remove m s v) (VersionSet.remove S [v]) := by
  have hcap := LawfulVersionSet.capacity_remove S [v]
  have hsize : VersionSet.size (VersionSet.remove S [v]) =
      if S.contains v then VersionSet.size S - 1 else VersionSet.size S := MathSet.size_remove S v
  have hcontains (w : Nat) : (VersionSet.remove S [v]).contains w =
      (S.contains w && decide (w ≠ v)) := (S.contains_remove [v] w).trans (by simp)
  simp only [WordRange.remove, h.hasBit_eq hv]
  split
  · next hmem =>
    rw [if_pos hmem] at hsize
    refine h.updates (h.changedIn_write hv _) hcap (by rw [h.size_eq, hsize]) fun k hk i hi => ?_
    rw [h.read_write hv, hcontains]
    split
    · next hword =>
      subst hword
      rw [testBit_and_not_oneBit _ hi (by omega), place, h.testBit_eq hk hi]
      have : v % 32 = i ↔ 32 * (v / 32) + i = v := by omega
      simp [this]
    · next hword =>
      have : 32 * k + i ≠ v := by omega
      simp [h.testBit_eq hk hi, this]
  · next hmem =>
    rw [if_neg hmem] at hsize
    refine h.updates (.refl _ m) hcap (h.size_eq.trans hsize.symm) fun k hk i hi => ?_
    rw [h.testBit_eq hk hi, hcontains]
    grind

theorem changedIn_fill (w : UInt32) :
    Memory.ChangedIn s.region m (m.writeAll s.offset (.replicate s.length w)) := by
  have hchanged := m.changedIn_writeAll s.offset (.replicate s.length w)
  rwa [List.length_replicate] at hchanged

theorem read_fill (h : IsOf m s S) (w : UInt32) {k : Nat} (hk : k < s.length) :
    (m.writeAll s.offset (.replicate s.length w)).read (s.offset + k) = w :=
  m.read_writeAll (by simpa using h.le_size) (by simp [hk])

theorem clear (h : IsOf m s S) :
    layout.Updates m s ({ s with size := 0 }, m.writeAll s.offset (.replicate s.length 0))
      (VersionSet.clear S) := by
  refine h.updates (changedIn_fill 0) (LawfulVersionSet.capacity_clear S)
    (MathSet.size_clear S).symm fun k hk i _ => ?_
  rw [h.read_fill 0 hk, UInt32.toNat_zero, Nat.zero_testBit]
  refine (Bool.eq_false_iff.2 fun hmem => ?_).symm
  rw [← WordsSet.mem_toList, LawfulVersionSet.toList_clear] at hmem
  cases hmem

/-- Cutting off the tail clears the bits at and above the capacity, since only the last word has
such bits. -/
theorem testBit_maskTail (hlength : s.length = wordsFor s.capacity)
    (hsize : s.offset + s.length ≤ m.size) {k i : Nat} (hk : k < s.length) (hi : i < 32) :
    ((maskTail m s).read (s.offset + k)).toNat.testBit i =
      ((m.read (s.offset + k)).toNat.testBit i && decide (32 * k + i < s.capacity)) := by
  have hpos : 0 < s.length := Nat.zero_lt_of_lt hk
  simp only [maskTail, if_pos hpos]
  rw [Memory.read_write m (by omega)]
  unfold wordsFor at hlength
  split
  · next hlast =>
    rw [UInt32.toNat_and, Nat.testBit_and, testBit_tailMask hi, hlast]
    have : s.capacity % 32 = 0 ∨ i < s.capacity % 32 ↔ 32 * k + i < s.capacity := by omega
    simp [this]
  · next hlast =>
    have : 32 * k + i < s.capacity := by omega
    simp [this]

theorem changedIn_maskTail (m : Memory UInt32) (s : WordRange) :
    Memory.ChangedIn s.region m (maskTail m s) := by
  simp only [maskTail]
  split
  · next hpos =>
    refine .write m ⟨?_, ?_⟩ _
    · change s.offset ≤ _
      omega
    · change _ < s.offset + s.length
      omega
  · exact .refl _ m

theorem fill (h : IsOf m s S) :
    layout.Updates m s
      ({ s with size := s.capacity },
        maskTail (m.writeAll s.offset (.replicate s.length (lowMask 32))) s)
      (VersionSet.fill S) := by
  have hfill := changedIn_fill (m := m) (s := s) (lowMask 32)
  refine h.updates (hfill.trans (changedIn_maskTail _ s)) (LawfulVersionSet.capacity_fill S)
    (h.capacity_eq.trans (MathSet.size_fill S).symm) fun k hk i hi => ?_
  rw [testBit_maskTail (h.length_eq.trans (congrArg wordsFor h.capacity_eq.symm))
    (hfill.size_eq ▸ h.le_size) hk hi, h.read_fill _ hk, testBit_lowMask_full hi, h.capacity_eq,
    Bool.true_and, Bool.eq_iff_iff, ← WordsSet.mem_toList, LawfulVersionSet.toList_fill]
  simp [VersionSet.capacity]

/-- A pass over the words leaves each with what is made of it, if that only depends on cells that
the pass has not reached. -/
theorem mapWords_spec (hsize : s.offset + s.length ≤ m.size) {f : Memory UInt32 → Nat → UInt32}
    (hf : ∀ m' k, k < s.length → Memory.ChangedIn ⟨s.offset, k⟩ m m' → f m' k = f m k) :
    Memory.ChangedIn s.region m (mapWords m s f) ∧
      ∀ k < s.length, (mapWords m s f).read (s.offset + k) = f m k := by
  have hpass (n : Nat) (hn : n ≤ s.length) :
      let m' := (List.range n).foldl (fun m i => m.write (s.offset + i) (f m i)) m
      Memory.ChangedIn ⟨s.offset, n⟩ m m' ∧ ∀ k < n, m'.read (s.offset + k) = f m k := by
    induction n with
    | zero => exact ⟨.refl _ m, fun k hk => absurd hk (Nat.not_lt_zero k)⟩
    | succ n ih =>
      obtain ⟨hchanged, hread⟩ := ih (Nat.le_of_lt hn)
      simp only [List.range_succ, List.foldl_append, List.foldl_cons, List.foldl_nil]
      rw [hf _ n hn hchanged]
      refine ⟨(hchanged.mono fun i hi => ?_).trans (.write _ ⟨by simp, by simp⟩ _), fun k hk => ?_⟩
      · exact ⟨hi.1, Nat.lt_succ_of_lt hi.2⟩
      · rw [Memory.read_write _ (by rw [hchanged.size_eq]; omega)]
        split
        · next heq => rw [Nat.add_left_cancel heq]
        · next hne => exact hread k (by omega)
  exact hpass s.length (Nat.le_refl _)

theorem read_ahead {k : Nat} (h : Memory.ChangedIn ⟨s.offset, k⟩ m m') :
    m'.read (s.offset + k) = m.read (s.offset + k) :=
  h.read_eq fun hk => Nat.lt_irrefl _ hk.2

/-- What a pass reads of the words of another set is never changed. -/
theorem read_other (hapart : s.region.Apart t.region) (hlength : s.length = t.length) {k : Nat}
    (hk : k < s.length) (h : Memory.ChangedIn ⟨s.offset, k⟩ m m') :
    m'.read (t.offset + k) = m.read (t.offset + k) := by
  refine h.read_eq fun hin => ?_
  unfold Region.Apart region at hapart
  unfold Region.Contains at hin
  dsimp only at *
  omega

theorem invert (h : IsOf m s S) :
    layout.Updates m s
      ({ s with size := s.capacity - s.size },
        maskTail (mapWords m s (fun m i => ~~~ m.read (s.offset + i))) s)
      (VersionSet.invert S) := by
  obtain ⟨hchanged, hread⟩ := mapWords_spec (f := fun m i => ~~~ m.read (s.offset + i))
    h.le_size fun m' k _ hk => by rw [read_ahead hk]
  refine h.updates (hchanged.trans (changedIn_maskTail _ s)) (LawfulVersionSet.capacity_invert S)
    ?_ fun k hk i hi => ?_
  · rw [MathSet.size_invert]
    exact congr (congrArg _ h.capacity_eq) h.size_eq
  · rw [testBit_maskTail (h.length_eq.trans (congrArg wordsFor h.capacity_eq.symm))
      (hchanged.size_eq ▸ h.le_size) hk hi, hread k hk, testBit_not hi, h.testBit_eq hk hi,
      h.capacity_eq, Bool.eq_iff_iff, ← WordsSet.mem_toList, LawfulVersionSet.mem_invert,
      WordsSet.mem_toList]
    simp [VersionSet.capacity, and_comm]

private theorem size_recounted (h : ∀ k < wordsFor S.capacity, m.read (s.offset + k) = S.word k)
    (hlength : s.length = wordsFor S.capacity) :
    maskedCounts (m.window s.offset s.length) = VersionSet.size S := by
  have hwindow : m.window s.offset s.length = S.words.toList := by
    rw [hlength, S.toList_words]
    exact List.map_congr_left fun k hk => h k (List.mem_range.1 hk)
  rw [hwindow, maskedCounts_eq]
  rfl

theorem combine (h : IsOf m s S) (h' : IsOf m t T) (hapart : s.region.Apart t.region)
    (hcap : S.capacity = T.capacity) {f : UInt32 → UInt32 → UInt32}
    (hcap' : S'.capacity = S.capacity)
    (hbits : ∀ k < s.length, ∀ i < 32, (f (S.word k) (T.word k)).toNat.testBit i =
      S'.contains (32 * k + i)) :
    let m' := mapWords m s (fun m i => f (m.read (s.offset + i)) (m.read (t.offset + i)))
    layout.Updates m s (recounted m' s, m') S' := by
  have hlength : s.length = t.length := by rw [h.length_eq, h'.length_eq, hcap]
  obtain ⟨hchanged, hread⟩ := mapWords_spec
    (f := fun m i => f (m.read (s.offset + i)) (m.read (t.offset + i)))
    h.le_size fun m' k hk hin => by rw [read_ahead hin, read_other hapart hlength hk hin]
  have hwords (k : Nat) (hk : k < s.length) :
      (mapWords m s (fun m i => f (m.read (s.offset + i)) (m.read (t.offset + i)))).read
        (s.offset + k) = f (S.word k) (T.word k) := by
    rw [hread k hk, h.read_eq hk, h'.read_eq (hlength ▸ hk)]
  have hlength' : s.length = wordsFor S'.capacity := by rw [h.length_eq, hcap']
  refine h.updates hchanged hcap' (size_recounted (fun k hk => ?_) hlength') fun k hk i hi => ?_
  · rw [hwords k (hlength' ▸ hk)]
    exact eq_word_iff.2 (hbits k (hlength' ▸ hk))
  · rw [hwords k hk]
    exact hbits k hk i hi

theorem unite (h : IsOf m s S) (h' : IsOf m t T) (hapart : s.region.Apart t.region)
    (hcap : S.capacity = T.capacity) :
    layout.Updates m s (SharedSet.unite m s t) (VersionSet.unite S T) := by
  refine h.combine h' hapart hcap (LawfulVersionSet.capacity_unite S T) fun k hk i hi => ?_
  rw [UInt32.toNat_or, Nat.testBit_or, eq_word_iff.1 rfl i hi, eq_word_iff.1 rfl i hi,
    Bool.eq_iff_iff, ← WordsSet.mem_toList (VersionSet.unite S T), LawfulVersionSet.mem_unite hcap,
    WordsSet.mem_toList, WordsSet.mem_toList, Bool.or_eq_true]

theorem subtract (h : IsOf m s S) (h' : IsOf m t T) (hapart : s.region.Apart t.region)
    (hcap : S.capacity = T.capacity) :
    layout.Updates m s (SharedSet.subtract m s t) (VersionSet.subtract S T) := by
  refine h.combine h' hapart hcap (f := fun a b => a &&& ~~~ b)
    (LawfulVersionSet.capacity_subtract S T) fun k hk i hi => ?_
  rw [UInt32.toNat_and, Nat.testBit_and, testBit_not hi, eq_word_iff.1 rfl i hi,
    eq_word_iff.1 rfl i hi, Bool.eq_iff_iff, ← WordsSet.mem_toList (VersionSet.subtract S T),
    LawfulVersionSet.mem_subtract hcap, WordsSet.mem_toList, WordsSet.mem_toList]
  simp

theorem copyOnto (h : IsOf m s S) (h' : IsOf m t T) (hcap : S.capacity = T.capacity) :
    layout.Updates m t (WordRange.copyOnto m s t) S := by
  have hlength : s.length = t.length := by rw [h.length_eq, h'.length_eq, hcap]
  have hchanged : Memory.ChangedIn t.region m (m.move s.offset t.offset s.length) := by
    rw [hlength]
    exact m.changedIn_move s.offset t.offset t.length
  refine h'.updates hchanged hcap h.size_eq fun k hk i hi => ?_
  have hk : k < s.length := hlength ▸ hk
  rw [m.read_move (hlength ▸ h'.le_size) hk]
  exact h.testBit_eq hk hi

end IsOf

end CardSearch.WordRange
