import CardSearch.Proofs.VersionSet.WordRange

/-!
# Members of version sets in a range of words

The members are read off word by word, from the lowest one of each word to the highest. Asking about
them clears the bits of those rejected in a word before the next word is read.
-/

namespace CardSearch.WordRange

variable {m m' : Memory UInt32} {s : WordRange} {S : WordsSet} {v : Nat}

namespace IsOf

def membersIn (S : WordsSet) (k : Nat) : List Nat := (ones (S.word k)).map (32 * k + ·)

theorem mem_membersIn {k : Nat} : v ∈ membersIn S k ↔ v / 32 = k ∧ S.contains v = true := by
  rw [membersIn, List.mem_map]
  constructor
  · rintro ⟨i, hi, rfl⟩
    have hlt := lt_of_mem_ones hi
    rw [mem_ones, eq_word_iff.1 rfl i hlt] at hi
    exact ⟨by omega, hi⟩
  · rintro ⟨rfl, hv⟩
    refine ⟨v % 32, ?_, Nat.div_add_mod v 32⟩
    rwa [mem_ones, S.testBit_word]

/-- Members in words that come one after the other are in ascending order. -/
theorem pairwise_membersIn (S : WordsSet) {ks : List Nat} (h : ks.Pairwise (· < ·)) :
    (ks.flatMap (membersIn S)).Pairwise (· < ·) := by
  refine List.pairwise_flatMap.2 ⟨fun k _ => ?_, h.imp fun hlt v hv w hw => ?_⟩
  · exact (pairwise_ones _).map _ fun i j hij => Nat.add_lt_add_left hij _
  · have := (mem_membersIn.1 hv).1
    have := (mem_membersIn.1 hw).1
    omega

theorem flatMap_membersIn (S : WordsSet) :
    (List.range (wordsFor S.capacity)).flatMap (membersIn S) = VersionSet.toList S := by
  refine eq_of_mem_iff_of_ascending (pairwise_membersIn S List.pairwise_lt_range)
    (LawfulVersionSet.ascending S) fun v => ?_
  rw [WordsSet.mem_toList, List.mem_flatMap]
  constructor
  · rintro ⟨k, -, hv⟩
    exact (mem_membersIn.1 hv).2
  · intro hv
    have hlt := WordsSet.lt_wordsFor (WordsSet.lt_of_contains hv)
    exact ⟨v / 32, List.mem_range.2 hlt, mem_membersIn.2 ⟨rfl, hv⟩⟩

theorem membersIn_eq_nil {k : Nat} (h : S.word k = 0) : membersIn S k = [] := by
  rw [membersIn, h, ones, dif_pos rfl]
  rfl

theorem toList_eq (h : IsOf m s S) :
    (List.range s.length).flatMap (fun i => (ones (m.read (s.offset + i))).map (32 * i + ·)) =
      VersionSet.toList S := by
  rw [← flatMap_membersIn, ← h.length_eq]
  refine List.flatMap_congr fun k hk => ?_
  rw [h.read_eq (List.mem_range.1 hk), membersIn]

/-- The least member is the lowest one of the first word that has a one. -/
theorem first_eq (h : IsOf m s S) : SharedSet.first? m s = VersionSet.first? S := by
  have hsize : s.size = (VersionSet.toList S).length :=
    h.size_eq.trans (LawfulVersionSet.size_eq S)
  change (if s.size = 0 then none else _) = _
  split
  · next hnone =>
    have hnil : VersionSet.toList S = [] := List.length_eq_zero_iff.1 (hsize.symm.trans hnone)
    rw [VersionSet.first?, hnil, List.head?_nil]
  · next hsome =>
    cases hfind : (List.range s.length).find? (fun k => m.read (s.offset + k) != 0) with
    | none =>
      -- all words are zero, so there is no member
      refine absurd (hsize.trans ?_) hsome
      rw [← flatMap_membersIn, ← h.length_eq, List.length_eq_zero_iff, List.flatMap_eq_nil_iff]
      intro k hk
      have hk' := List.find?_eq_none.1 hfind k hk
      rw [h.read_eq (List.mem_range.1 hk)] at hk'
      exact membersIn_eq_nil (by simpa using hk')
    | some k =>
      obtain ⟨hone, hk, hbelow⟩ := List.find?_range_eq_some.1 hfind
      have hk := List.mem_range.1 hk
      have hone : m.read (s.offset + k) ≠ 0 := by simpa using hone
      refine ((head?_eq_some_iff_isLeast (LawfulVersionSet.ascending S) _).2
        ⟨?_, fun v hv => ?_⟩).symm
      · have hbit := testBit_trailingZeros hone
        rw [h.testBit_eq hk (trailingZeros_lt hone)] at hbit
        exact (WordsSet.mem_toList S _).2 hbit
      · have hv := (WordsSet.mem_toList S v).1 hv
        change 32 * k + trailingZeros (m.read (s.offset + k)) ≤ v
        rcases Nat.lt_trichotomy (v / 32) k with hlt | heq | hgt
        · -- a word before the first one with a one has no member
          have hzero := hbelow (v / 32) hlt
          rw [h.read_eq (Nat.lt_trans hlt hk)] at hzero
          have hmem : v ∈ membersIn S (v / 32) := mem_membersIn.2 ⟨rfl, hv⟩
          rw [membersIn_eq_nil (by simpa using hzero)] at hmem
          cases hmem
        · have hbit : (m.read (s.offset + k)).toNat.testBit (v % 32) = true := by
            rw [h.testBit_eq hk (by omega), ← heq, Nat.div_add_mod, hv]
          have := trailingZeros_le hbit
          omega
        · have := trailingZeros_lt hone
          omega

/-- Asking about the ones of a word clears the bits of those rejected. -/
theorem retainOnes_spec {ε : Type} (keep : Nat → Except ε Bool) (start : Nat)
    (pending word : UInt32) (n : Nat) :
    let asked := rejected keep ((ones pending).map (start + ·))
    let answer := retainOnes keep start pending word n
    (∀ i < 32, answer.1.toNat.testBit i =
      (word.toNat.testBit i && decide (start + i ∉ asked.1))) ∧
    answer.2.1 = n - asked.1.length ∧ answer.2.2 = asked.2 := by
  fun_induction retainOnes keep start pending word n with
  | case1 word n => simp [ones, rejected]
  | case2 pending word n hpending i hkeep ih =>
    rw [ones, dif_neg hpending, List.map_cons, rejected, hkeep]
    exact ih
  | case3 pending word n hpending i hkeep ih =>
    rw [ones, dif_neg hpending, List.map_cons, rejected, hkeep]
    obtain ⟨hbits, hcount, hfailure⟩ := ih
    refine ⟨fun j hj => ?_, ?_, hfailure⟩
    · rw [hbits j hj, testBit_and_not_oneBit _ hj (trailingZeros_lt hpending)]
      simp only [List.mem_cons]
      grind
    · rw [hcount, List.length_cons]
      omega
  | case4 pending word n hpending i e hkeep =>
    rw [ones, dif_neg hpending, List.map_cons, rejected, hkeep]
    simp

private theorem membersIn_remove (S : WordsSet) (vs : List Nat) {k : Nat}
    (h : ∀ v ∈ vs, v / 32 ≠ k) : membersIn (VersionSet.remove S vs) k = membersIn S k := by
  have hword : (VersionSet.remove S vs).word k = S.word k := eq_word_iff.2 fun i hi => by
    rw [eq_word_iff.1 rfl i hi]
    refine (S.contains_remove vs _).trans ?_
    have : 32 * k + i ∉ vs := fun hmem => h _ hmem (by omega)
    simp [this]
  rw [membersIn, hword, membersIn]

/-- Writing back a word whose bits were cleared takes out the members rejected in it. -/
theorem retainWord (h : IsOf m s S) {ε : Type} (keep : Nat → Except ε Bool) {k : Nat}
    (hk : k < s.length) :
    let answer := retainOnes keep (32 * k) (S.word k) (S.word k) s.size
    layout.Updates m s ({ s with size := answer.2.1 }, m.write (s.offset + k) answer.1)
        (VersionSet.remove S (rejected keep (membersIn S k)).1) ∧
      answer.2.2 = (rejected keep (membersIn S k)).2 := by
  obtain ⟨hbits, hcount, hfailure⟩ := retainOnes_spec keep (32 * k) (S.word k) (S.word k) s.size
  have hsub := rejected_sublist keep (membersIn S k)
  have hasc : (membersIn S k).Pairwise (· < ·) := by
    simpa using pairwise_membersIn S (List.pairwise_singleton _ k)
  have hchanged (w : UInt32) : Memory.ChangedIn s.region m (m.write (s.offset + k) w) :=
    .write m ⟨Nat.le_add_right .., Nat.add_lt_add_left hk _⟩ w
  refine ⟨h.updates (hchanged _)
    (LawfulVersionSet.capacity_remove S _) ?_ fun j hj i hi => ?_, hfailure⟩
  · rw [hcount, MathSet.size_removeAll S (hasc.sublist hsub), h.size_eq]
    · rfl
    · exact fun v hv => (WordsSet.mem_toList S v).2 (mem_membersIn.1 (hsub.subset hv)).2
  · have hle := h.le_size
    rw [Memory.read_write m (by omega)]
    refine .trans ?_ (S.contains_remove _ _).symm
    split
    · next heq =>
      rw [hbits i hi, eq_word_iff.1 rfl i hi, Nat.add_left_cancel heq]
      rfl
    · next hne =>
      have hmem : 32 * j + i ∉ (rejected keep (membersIn S k)).1 := fun hmem => by
        have := (mem_membersIn.1 (hsub.subset hmem)).1
        omega
      simp [h.testBit_eq hj hi, hmem]

/-- Asking about the members word by word takes out those rejected in any of the words. -/
theorem retainWords_spec (h : IsOf m s S) {ε : Type} (keep : Nat → Except ε Bool) {ks : List Nat}
    (hks : ks.Pairwise (· < ·)) (hlt : ∀ k ∈ ks, k < s.length) :
    let asked := rejected keep (ks.flatMap (membersIn S))
    layout.Updates m s (retainWords keep m s ks).1 (VersionSet.remove S asked.1) ∧
      (retainWords keep m s ks).2 = asked.2 := by
  induction ks generalizing m s S with
  | nil => exact ⟨h.updates (.refl _ m) rfl h.size_eq fun k hk i hi => h.testBit_eq hk hi, rfl⟩
  | cons k ks ih =>
    obtain ⟨hfirst, hrest⟩ := List.pairwise_cons.1 hks
    obtain ⟨hk, hlt⟩ := List.forall_mem_cons.1 hlt
    simp only [retainWords, List.flatMap_cons, h.read_eq hk]
    split
    · next hzero =>
      rw [membersIn_eq_nil hzero, List.nil_append]
      exact ih h hrest hlt
    · obtain ⟨hword, hfailure⟩ := h.retainWord keep hk
      have hlater : ks.flatMap (membersIn (VersionSet.remove S (rejected keep (membersIn S k)).1)) =
          ks.flatMap (membersIn S) := List.flatMap_congr fun j hj =>
        membersIn_remove S _ fun v hv heq => by
          have := (mem_membersIn.1 ((rejected_sublist keep _).subset hv)).1
          have := hfirst j hj
          omega
      have hnext := ih hword.holds hrest hlt
      rw [hlater] at hnext
      rw [rejected_append]
      generalize rejected keep (membersIn S k) = asked at *
      obtain ⟨no, failure⟩ := asked
      simp only [hfailure]
      cases failure with
      | some e => exact ⟨hword, rfl⟩
      | none =>
        obtain ⟨hlast, hfailure⟩ := hnext
        refine ⟨⟨?_, hlast.region_eq, hword.changed.trans hlast.changed⟩, hfailure⟩
        have hfold : VersionSet.remove S (no ++ (rejected keep (ks.flatMap (membersIn S))).1) =
            VersionSet.remove (VersionSet.remove S no)
              (rejected keep (ks.flatMap (membersIn S))).1 := List.foldl_append ..
        rw [hfold]
        exact hlast.holds

/-- Handing out more slots leaves a handle as it is. -/
theorem grow (h : IsOf m s S) {used : Nat} (hused : m.used ≤ used) (hsize : used ≤ m.size) :
    IsOf { m with used := used } s S :=
  { h with le_used := Nat.le_trans h.le_used hused, used_le := hsize }

end IsOf

private theorem create_agrees (h : m.used ≤ m.size) (n : Nat) :
    layout.Agrees m (create m n) (VersionSet.create m.arena n) := by
  by_cases hn : n ≤ mostVersions
  · rw [VersionSet.create_eq n _ hn, create, if_neg (Nat.not_lt.2 hn)]
    rcases m.alloc_cases h (wordsFor n) with ⟨e, htake, halloc⟩ | ⟨hroom, htake, halloc⟩
    · change layout.Agrees m _ ((m.arena.take (wordsFor n)).map _)
      rw [htake, halloc]
      exact .error e
    · change layout.Agrees m _ ((m.arena.take (wordsFor n)).map _)
      rw [htake, halloc]
      have hgrown : ({ m with used := m.used + wordsFor n } : Memory UInt32).size = m.size := rfl
      have hchanged := IsOf.changedIn_fill (m := { m with used := m.used + wordsFor n })
        (s := ⟨m.used, wordsFor n, n, 0⟩) 0
      refine .ok ⟨hchanged.arena_eq, ⟨rfl, hn, rfl, (MathSet.size_empty hn).symm, ?_, ?_,
        fun {k} hk => ?_⟩, fun hother => ⟨.inl hother.le_used, ?_⟩⟩
      · exact Nat.le_of_eq hchanged.used_eq.symm
      · rw [hchanged.size_eq, hchanged.used_eq]
        exact hroom
      · have hzero : (VersionSet.empty n hn : WordsSet).word k = 0 := (eq_word_iff.2 fun i _ => by
          rw [UInt32.toNat_zero, Nat.zero_testBit]
          refine (Bool.eq_false_iff.2 fun hmem => ?_).symm
          rw [← WordsSet.mem_toList, LawfulVersionSet.toList_empty] at hmem
          cases hmem).symm
        rw [hzero]
        exact Memory.read_writeAll _ (by simpa [hgrown] using hroom) (List.getElem?_replicate_of_lt hk)
      · exact (hother.grow (Nat.le_add_right ..) hroom).of_changed hchanged (.inl hother.le_used)
  · rw [VersionSet.create_eq_error n _ hn, create, if_pos (Nat.lt_of_not_le hn)]
    exact .error _

/-- The operations on words in memory are those on values. -/
theorem lawful_layout : layout.Lawful where
  capacity_eq h := h.capacity_eq
  size_eq h := h.size_eq
  contains_eq {m s S} h v := by
    change (decide (v < s.capacity) && hasBit (m.read (s.place v)) (v % 32)) = S.contains v
    rw [h.capacity_eq]
    by_cases hv : v < S.capacity
    · rw [h.hasBit_eq hv, decide_eq_true hv, Bool.true_and]
    · simp [hv, WordsSet.contains]
  first_eq h := h.first_eq
  toList_eq h := h.toList_eq
  arena_eq h := h.arena_eq
  holds_of_changed hchanged hapart h := h.of_changed hchanged hapart
  create h n := create_agrees h n
  copy {m s S} hused h := .copy (fun h => h.arena_eq)
    (fun hchanged hapart h => IsOf.of_changed h hchanged hapart)
    (fun hs ht hcap => IsOf.copyOnto hs ht hcap) h h.capacity_le
    (h.capacity_eq ▸ create_agrees hused s.capacity)
  add h hv := h.add hv
  push h hv _ := h.add hv
  remove h hv := h.remove hv
  clear h := h.clear
  fill h := h.fill
  invert h := h.invert
  unite h h' hapart hcap := h.unite h' hapart hcap
  subtract h h' hapart hcap := h.subtract h' hapart hcap
  copyOnto h h' _ hcap := h.copyOnto h' hcap
  retain {m s S ε} keep h := by
    have hspec := h.retainWords_spec keep List.pairwise_lt_range fun k => List.mem_range.1
    rw [h.length_eq, IsOf.flatMap_membersIn, ← h.length_eq] at hspec
    exact hspec

end CardSearch.WordRange
