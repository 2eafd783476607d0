import CardSearch.Proofs.VersionSet.SlotRange

/-!
# Merging in place

Two sets in slots are put together from the back, into the slots of the first one. No slot is
written whose member has still to be read.
-/

namespace CardSearch.SlotRange

variable {m m' : Memory UInt16} {s t : SlotRange} {S T : SortedSet}

private theorem mergedSize_eq (as bs : List UInt16) : mergedSize as bs =
    (mergeAscending (as.map UInt16.toNat) (bs.map UInt16.toNat)).length := by
  fun_induction mergedSize as bs with
  | case1 bs => simp [mergeAscending]
  | case2 as => cases as <;> simp [mergeAscending]
  | case3 a as b bs hlt ih =>
    rw [UInt16.lt_iff_toNat_lt] at hlt
    rw [List.map_cons, List.map_cons, mergeAscending, if_pos hlt, List.length_cons, ih]
    rfl
  | case4 a as b bs hlt hgt ih =>
    rw [UInt16.lt_iff_toNat_lt] at hlt hgt
    rw [List.map_cons, List.map_cons, mergeAscending, if_neg hlt, if_pos hgt, List.length_cons, ih]
    rfl
  | case5 a as b bs hlt hgt ih =>
    rw [UInt16.lt_iff_toNat_lt] at hlt hgt
    rw [List.map_cons, List.map_cons, mergeAscending, if_neg hlt, if_neg hgt, List.length_cons, ih]

/-- The greatest member is written behind the others, which are merged afterwards: as many slots are
still to be written as there are members in what is still to be merged, so none of those is lost. -/
theorem Fills.merge {offset other i j k : Nat} {c : UInt16} {as bs vs : List Nat}
    (hroom : offset + k ≤ m.size) (hapart : offset + k ≤ other ∨ other + j ≤ offset)
    (has : valuesAt m offset i = as) (hbs : valuesAt m other j = bs) (ha : as.Pairwise (· < ·))
    (hvs : vs = mergeAscending as bs ++ [c.toNat]) (hk : k = vs.length)
    (hrest : offset + (k - 1) ≤ (m.write (offset + k - 1) c).size →
      (offset + (k - 1) ≤ other ∨ other + j ≤ offset) →
      valuesAt (m.write (offset + k - 1) c) offset i = as →
      valuesAt (m.write (offset + k - 1) c) other j = bs → k - 1 = (mergeAscending as bs).length →
      Fills (m.write (offset + k - 1) c) m' offset (k - 1) (mergeAscending as bs)) :
    Fills m m' offset k vs := by
  have hlength := length_le_mergeAscending ha bs
  have hi : i = as.length := by rw [← has, length_valuesAt]
  rw [hvs, List.length_append, List.length_singleton] at hk
  have hroom' : offset + (k - 1) ≤ (m.write (offset + k - 1) c).size := by
    rw [Memory.size_write]
    omega
  have has' : valuesAt (m.write (offset + k - 1) c) offset i = as := by
    rw [valuesAt_write (by omega), has]
  have hbs' : valuesAt (m.write (offset + k - 1) c) other j = bs := by
    rw [valuesAt_write (by omega), hbs]
  rw [hvs]
  exact (hrest hroom' (by omega) has' hbs' (by omega)).concat (by omega) hroom

/-- Merging from the back never overwrites a slot of its own that it has still to read. -/
theorem mergeBack_spec (m : Memory UInt16) {offset other i j k : Nat} {as bs : List Nat}
    (hroom : offset + k ≤ m.size) (hapart : offset + k ≤ other ∨ other + j ≤ offset)
    (has : valuesAt m offset i = as) (hbs : valuesAt m other j = bs)
    (ha : as.Pairwise (· < ·)) (hb : bs.Pairwise (· < ·))
    (hk : k = (mergeAscending as bs).length) :
    Fills m (mergeBack m offset other i j k) offset k (mergeAscending as bs) := by
  fun_induction mergeBack m offset other i j k generalizing as bs with
  | case1 m i k =>
    have hmerge : mergeAscending as [] = as := by cases as <;> simp [mergeAscending]
    subst hbs
    rw [valuesAt_zero, hmerge] at hk ⊢
    have hi : i = as.length := by rw [← has, length_valuesAt]
    rw [hk, ← hi]
    exact ⟨.refl _ m, has⟩
  | case2 m i j k hj b a =>
    rename_i hcond ih
    obtain ⟨hi, hle⟩ := hcond
    have hj := Nat.pos_of_ne_zero hj
    rw [UInt16.le_iff_toNat_le] at hle
    rw [valuesAt_pred m offset hi] at has
    subst has
    have ha' := (List.pairwise_append.1 ha).1
    by_cases heq : a = b
    · -- the greatest member is in both lists
      rw [valuesAt_pred m other hj] at hbs
      subst hbs
      have hb' := (List.pairwise_append.1 hb).1
      rw [dif_pos heq] at ih
      rw [if_pos heq]
      have hlast : (m.read (other + j - 1)).toNat = a.toNat := congrArg UInt16.toNat heq.symm
      rw [hlast] at hb hk ⊢
      exact .merge hroom (by omega) rfl rfl ha' (mergeAscending_concat_both ha hb) hk
        fun hroom hapart has hbs => ih hroom hapart has hbs ha' hb'
    · -- the greatest member is in the first list only
      have hlt : b.toNat < a.toNat := Nat.lt_of_le_of_ne hle fun h =>
        heq (UInt16.toNat_inj.1 h.symm)
      have hbelow (v : Nat) (hv : v ∈ bs) : v < a.toNat := by
        subst hbs
        exact Nat.lt_of_le_of_lt (le_last_of_mem_valuesAt hj hb hv) hlt
      rw [dif_neg heq] at ih
      rw [if_neg heq]
      exact .merge hroom hapart rfl hbs ha' (mergeAscending_concat_left ha hb hbelow) hk
        fun hroom hapart has hbs => ih hroom hapart has hbs ha' hb
  | case3 m i j k hj b a =>
    rename_i hcond ih
    have hj := Nat.pos_of_ne_zero hj
    rw [valuesAt_pred m other hj] at hbs
    subst hbs
    have hb' := (List.pairwise_append.1 hb).1
    -- the greatest member is in the second list only
    have hbelow (v : Nat) (hv : v ∈ as) : v < b.toNat := by
      subst has
      have hi : 0 < i := Nat.pos_of_ne_zero fun hzero => by simp [hzero] at hv
      have hgt : ¬ b ≤ a := fun hle => hcond ⟨hi, hle⟩
      rw [UInt16.le_iff_toNat_le] at hgt
      exact Nat.lt_of_le_of_lt (le_last_of_mem_valuesAt hi ha hv) (Nat.lt_of_not_le hgt)
    exact .merge hroom (by omega) has rfl ha (mergeAscending_concat_right ha hb hbelow) hk
      fun hroom hapart has hbs => ih hroom hapart has hbs ha hb'

theorem IsOf.unite (h : IsOf m s S) (h' : IsOf m t T) (hapart : s.region.Apart t.region)
    (hcap : S.capacity = T.capacity) :
    layout.Updates m s (SharedSet.unite m s t) (VersionSet.unite S T) := by
  have hbelow : T.values.filter (· < S.capacity) = T.values :=
    List.filter_eq_self.2 fun v hv => by simpa [hcap] using T.bounded v hv
  have hvalues : (VersionSet.unite S T).values = mergeAscending S.values T.values :=
    congrArg (mergeAscending S.values) hbelow
  have hmerged : mergedSize (members m s) (members m t) =
      (mergeAscending S.values T.values).length := by
    rw [mergedSize_eq, ← h.values_eq, ← h'.values_eq]
    rfl
  have hlength : (mergeAscending S.values T.values).length ≤ mostVersions := by
    have hbound := length_le_of_ascending (VersionSet.unite S T).ascending
      (VersionSet.unite S T).bounded
    rw [hvalues] at hbound
    exact Nat.le_trans hbound h.capacity_le
  have hsize := h.le_size
  have hsize' := h'.size_le
  unfold Region.Apart region at hapart
  dsimp only at hapart
  change layout.Updates m s
    ({ s with size := mergedSize (members m s) (members m t) },
      mergeBack m s.offset t.offset s.size t.size (mergedSize (members m s) (members m t))) _
  obtain ⟨hchanged, hmerge⟩ := mergeBack_spec m (by omega) (by omega) h.values_eq h'.values_eq
    S.ascending T.ascending hmerged
  refine h.updates (hchanged.mono fun i hi => ?_) (LawfulVersionSet.capacity_unite S T)
    (hmerge.trans hvalues.symm)
  simp only [Region.Contains, region] at *
  omega

end CardSearch.SlotRange
