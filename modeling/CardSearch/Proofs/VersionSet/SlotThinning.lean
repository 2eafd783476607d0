import CardSearch.Proofs.VersionSet.SlotMerging

/-!
# Thinning out in place

A pass over the slots of a set drops members of another set, or those that are rejected. What stays
is written to slots whose members have been read.
-/

namespace CardSearch.SlotRange

variable {m m' : Memory UInt16} {s t : SlotRange} {S T : SortedSet}

/-- Skipping goes on to the members that are not below a value. -/
theorem skipBelow_spec (m : Memory UInt16) (t : SlotRange) (value : UInt16) {j : Nat}
    (hj : j ≤ t.size) :
    skipBelow m t value j ≤ t.size ∧
      valuesAt m (t.offset + skipBelow m t value j) (t.size - skipBelow m t value j) =
        (valuesAt m (t.offset + j) (t.size - j)).dropWhile (· < value.toNat) := by
  fun_induction skipBelow m t value j with
  | case1 j hcond ih =>
    obtain ⟨hlt, hbelow⟩ := hcond
    rw [UInt16.lt_iff_toNat_lt] at hbelow
    obtain ⟨hle, hvalues⟩ := ih hlt
    refine ⟨hle, hvalues.trans ?_⟩
    rw [show t.size - j = t.size - (j + 1) + 1 by omega, valuesAt_succ_cons,
      List.dropWhile_cons_of_pos (by simpa using hbelow), Nat.add_assoc]
  | case2 j hcond =>
    refine ⟨hj, ?_⟩
    by_cases hlt : j < t.size
    · have habove : ¬ m.read (t.offset + j) < value := fun hbelow => hcond ⟨hlt, hbelow⟩
      rw [UInt16.lt_iff_toNat_lt] at habove
      rw [show t.size - j = t.size - (j + 1) + 1 by omega, valuesAt_succ_cons,
        List.dropWhile_cons_of_neg (by simpa using habove)]
    · rw [show t.size - j = 0 by omega]
      rfl

/-- A value is a member exactly if skipping what is below it stops at the value. -/
theorem skipBelow_found (m : Memory UInt16) (t : SlotRange) (value : UInt16) {j : Nat}
    (hj : j ≤ t.size) (hasc : (valuesAt m (t.offset + j) (t.size - j)).Pairwise (· < ·)) :
    skipBelow m t value j < t.size ∧ m.read (t.offset + skipBelow m t value j) = value ↔
      value.toNat ∈ valuesAt m (t.offset + j) (t.size - j) := by
  obtain ⟨hle, hvalues⟩ := skipBelow_spec m t value hj
  rw [← (dropWhile_lt hasc value.toNat).2.2, ← hvalues]
  generalize skipBelow m t value j = next at *
  by_cases hlt : next < t.size
  · rw [show t.size - next = t.size - (next + 1) + 1 by omega, valuesAt_succ_cons, List.head?_cons]
    simp [hlt, UInt16.toNat_inj]
  · rw [show t.size - next = 0 by omega, valuesAt_zero]
    simp [hlt]

/-- A pass writes the members from a place on that are not in another set to slots whose members
it has read. -/
theorem subtractFrom_spec (m : Memory UInt16) {s t : SlotRange} {read write j : Nat}
    {as bs : List Nat} (hroom : s.offset + s.size ≤ m.size) (hread : write ≤ read)
    (hapart : s.offset + s.size ≤ t.offset ∨ t.offset + t.size ≤ s.offset) (hj : j ≤ t.size)
    (has : valuesAt m (s.offset + read) (s.size - read) = as)
    (hbs : valuesAt m (t.offset + j) (t.size - j) = bs) (ha : as.Pairwise (· < ·))
    (hb : bs.Pairwise (· < ·)) :
    let left := as.filter (· ∉ bs)
    (subtractFrom m s t read write j).1 = write + left.length ∧
      Fills m (subtractFrom m s t read write j).2 (s.offset + write) left.length left := by
  fun_induction subtractFrom m s t read write j generalizing as bs with
  | case1 m read write j =>
    rename_i hlt value next hcond ih
    obtain ⟨hnext, hskip⟩ := skipBelow_spec m t value hj
    have hin := (skipBelow_found m t value hj (hbs ▸ hb)).1 hcond
    rw [hbs] at hskip hin
    rw [show s.size - read = s.size - (read + 1) + 1 by omega, valuesAt_succ_cons] at has
    subst has
    obtain ⟨hfirst, hrest⟩ := List.pairwise_cons.1 ha
    have hpass := ih hroom (by omega) hnext rfl hskip hrest (dropWhile_lt hb value.toNat).1
    rw [← Nat.add_assoc] at hpass
    rw [filter_dropWhile_lt hb hfirst] at hpass
    rw [List.filter_cons_of_neg (by simpa using hin)]
    exact hpass
  | case2 m read write j =>
    rename_i hlt value next hcond ih
    obtain ⟨hnext, hskip⟩ := skipBelow_spec m t value hj
    have hout := mt (skipBelow_found m t value hj (hbs ▸ hb)).2 hcond
    rw [hbs] at hskip hout
    rw [show s.size - read = s.size - (read + 1) + 1 by omega, valuesAt_succ_cons] at has
    subst has
    obtain ⟨hfirst, hrest⟩ := List.pairwise_cons.1 ha
    have hpass := ih (by rwa [Memory.size_write]) (by omega) hnext (valuesAt_write (by omega) value)
      ((valuesAt_write (by omega) value).trans hskip) hrest (dropWhile_lt hb value.toNat).1
    rw [← Nat.add_assoc] at hpass
    rw [filter_dropWhile_lt hb hfirst] at hpass
    obtain ⟨hcount, hfills⟩ := hpass
    rw [List.filter_cons_of_pos (by simpa using hout)]
    exact ⟨hcount.trans (Nat.add_right_comm ..), hfills.cons (by omega)⟩
  | case3 m read write j hlt =>
    rw [show s.size - read = 0 by omega, valuesAt_zero] at has
    subst has
    exact ⟨rfl, .refl _ m, rfl⟩

theorem IsOf.subtract (h : IsOf m s S) (h' : IsOf m t T) (hapart : s.region.Apart t.region)
    (_ : S.capacity = T.capacity) :
    layout.Updates m s (SharedSet.subtract m s t) (VersionSet.subtract S T) := by
  have hvalues : (VersionSet.subtract S T).values = S.values.filter (· ∉ T.values) :=
    withoutAscending_eq_filter S.ascending T.ascending
  have hlast := h.size_le
  have hsize := h.le_size
  have hlast' := h'.size_le
  unfold Region.Apart region at hapart
  dsimp only at hapart
  obtain ⟨hcount, hchanged, hleft⟩ := subtractFrom_spec m (by omega)
    (Nat.le_refl 0) (by omega) (Nat.zero_le _) h.values_eq h'.values_eq S.ascending T.ascending
  have hlength : (S.values.filter (· ∉ T.values)).length ≤ s.size :=
    h.size_eq ▸ List.length_filter_le ..
  rw [← hvalues] at hlength hcount hchanged hleft
  rw [Nat.zero_add] at hcount
  change layout.Updates m s
    ({ s with size := (subtractFrom m s t 0 0 0).1 }, (subtractFrom m s t 0 0 0).2) _
  refine h.updates (hchanged.mono fun i hi => ?_) (LawfulVersionSet.capacity_subtract S T)
    (hcount ▸ hleft)
  simp only [Region.Contains, region] at *
  omega

/-- Those that are not rejected are the first value, if it is answered with yes, and those of the
others. -/
theorem filter_rejected_cons {ε : Type} {keep : Nat → Except ε Bool} {v : Nat} {vs : List Nat}
    {b : Bool} (hkeep : keep v = .ok b) (hfirst : ∀ w ∈ vs, v < w) :
    (v :: vs).filter (· ∉ (rejected keep (v :: vs)).1) =
      (if b then [v] else []) ++ vs.filter (· ∉ (rejected keep vs).1) := by
  have hout : v ∉ (rejected keep vs).1 := fun hv =>
    Nat.lt_irrefl v (hfirst v ((rejected_sublist keep vs).subset hv))
  cases b with
  | true =>
    rw [rejected, hkeep]
    exact List.filter_cons_of_pos (by simpa using hout)
  | false =>
    rw [rejected, hkeep]
    refine (List.filter_cons_of_neg (by simp)).trans (List.filter_congr fun w hw => ?_)
    have : w ≠ v := Nat.ne_of_gt (hfirst w hw)
    simp [this]

/-- A pass asks about the members from a place on, up to the first failure. Those that stay are in
two parts then, which together are all that are not rejected. -/
theorem retainFrom_spec {ε : Type} (keep : Nat → Except ε Bool) (m : Memory UInt16)
    {s : SlotRange} {read write : Nat} {as : List Nat} (hroom : s.offset + s.size ≤ m.size)
    (hwrite : write ≤ read) (hread : read ≤ s.size)
    (has : valuesAt m (s.offset + read) (s.size - read) = as) (ha : as.Pairwise (· < ·)) :
    ∃ m' read' count, retainFrom keep m s read write =
        (m', read', write + count, (rejected keep as).2) ∧
      write + count ≤ read' ∧ read' ≤ s.size ∧
      Memory.ChangedIn ⟨s.offset + write, count⟩ m m' ∧
      valuesAt m' (s.offset + write) count ++ valuesAt m' (s.offset + read') (s.size - read') =
        as.filter (· ∉ (rejected keep as).1) := by
  fun_induction retainFrom keep m s read write generalizing as with
  | case1 m read write =>
    rename_i hlt value hkeep ih
    rw [show s.size - read = s.size - (read + 1) + 1 by omega, valuesAt_succ_cons] at has
    subst has
    obtain ⟨hfirst, hrest⟩ := List.pairwise_cons.1 ha
    obtain ⟨m', read', count, hpass, hle, hend, hchanged, hleft⟩ := ih (by rwa [Memory.size_write])
      (by omega) hlt (valuesAt_write (by omega) value) hrest
    have hfills : Fills (m.write (s.offset + write) value) m' (s.offset + write + 1) count
        (valuesAt m' (s.offset + write + 1) count) := ⟨hchanged, rfl⟩
    obtain ⟨hchanged, hvalues⟩ := hfills.cons (by omega)
    refine ⟨m', read', count + 1, ?_, by omega, hend, hchanged, ?_⟩
    · rw [hpass, rejected, hkeep, Nat.add_right_comm, Nat.add_assoc]
      rfl
    · rw [filter_rejected_cons hkeep hfirst, hvalues]
      exact congrArg (value.toNat :: ·) hleft
  | case2 m read write =>
    rename_i hlt value hkeep ih
    rw [show s.size - read = s.size - (read + 1) + 1 by omega, valuesAt_succ_cons] at has
    subst has
    obtain ⟨hfirst, hrest⟩ := List.pairwise_cons.1 ha
    obtain ⟨m', read', count, hpass, hle, hend, hchanged, hleft⟩ := ih hroom (by omega) hlt rfl hrest
    refine ⟨m', read', count, ?_, hle, hend, hchanged, ?_⟩
    · rw [hpass, rejected, hkeep]
      rfl
    · rw [filter_rejected_cons hkeep hfirst, hleft]
      rfl
  | case3 m read write =>
    rename_i hlt value e hkeep
    rw [show s.size - read = s.size - (read + 1) + 1 by omega, valuesAt_succ_cons] at has
    subst has
    rw [rejected, hkeep]
    have hfills : Fills (m.write (s.offset + write) value) (m.write (s.offset + write) value)
        (s.offset + write + 1) 0 [] := ⟨.refl _ _, rfl⟩
    obtain ⟨hchanged, hvalues⟩ := hfills.cons (by omega)
    refine ⟨m.write (s.offset + write) value, read + 1, 1, rfl, by omega, hlt, hchanged, ?_⟩
    rw [hvalues, valuesAt_write (by omega)]
    simp [value, Nat.add_assoc]
  | case4 m read write hlt =>
    rw [show s.size - read = 0 by omega, valuesAt_zero] at has
    subst has
    exact ⟨m, read, 0, rfl, hwrite, hread, .refl _ m, by rw [show s.size - read = 0 by omega]; rfl⟩

namespace IsOf

private theorem retain (h : IsOf m s S) {ε : Type} (keep : Nat → Except ε Bool) :
    layout.Updates m s (SlotRange.retain keep m s).1 (VersionSet.retain keep S).1 ∧
      (SlotRange.retain keep m s).2 = (VersionSet.retain keep S).2 := by
  have hlast := h.size_le
  have hsize := h.le_size
  have hkept : (VersionSet.retain keep S).1.values =
      S.values.filter (· ∉ (rejected keep S.values).1) :=
    withoutAscending_eq_filter S.ascending (S.ascending.sublist (rejected_sublist keep _))
  obtain ⟨m', read, write, hpass, hle, hend, hchanged, hleft⟩ := retainFrom_spec keep m
    (by omega) (Nat.le_refl 0) (Nat.zero_le _) h.values_eq S.ascending
  rw [Nat.zero_add] at hpass hle
  rw [Nat.add_zero] at hchanged hleft
  have hmove := m'.changedIn_move (s.offset + read) (s.offset + write) (s.size - read)
  simp only [SlotRange.retain, hpass]
  refine ⟨h.updates (.trans (hchanged.mono fun i hi => ?_) (hmove.mono fun i hi => ?_))
    (LawfulVersionSet.capacity_remove S _) ?_, rfl⟩
  · simp only [Region.Contains, region] at *
    omega
  · simp only [Region.Contains, region] at *
    omega
  · rw [valuesAt_append, valuesAt_of_changed hmove (by simp),
      valuesAt_move (by rw [hchanged.size_eq]; omega), hleft]
    exact hkept.symm

/-- Handing out more slots leaves a handle as it is. -/
theorem grow (h : IsOf m s S) {used : Nat} (hused : m.used ≤ used) (hsize : used ≤ m.size) :
    IsOf { m with used := used } s S :=
  { h with le_used := Nat.le_trans h.le_used hused, used_le := hsize }

end IsOf

private theorem create_agrees (h : m.used ≤ m.size) (n : Nat) :
    layout.Agrees m (create m n) (VersionSet.create m.arena n) := by
  by_cases hn : n ≤ mostVersions
  · rw [VersionSet.create_eq n _ hn, create, if_neg (Nat.not_lt.2 hn)]
    rcases m.alloc_cases h mostVersions with ⟨e, htake, halloc⟩ | ⟨hroom, htake, halloc⟩
    · change layout.Agrees m _ ((m.arena.take mostVersions).map _)
      rw [htake, halloc]
      exact .error e
    · change layout.Agrees m _ ((m.arena.take mostVersions).map _)
      rw [htake, halloc]
      exact .ok ⟨rfl, ⟨rfl, hn, Nat.le_refl _, hroom, rfl⟩, fun hother =>
        ⟨.inl hother.le_used, hother.grow (Nat.le_add_right ..) hroom⟩⟩
  · rw [VersionSet.create_eq_error n _ hn, create, if_pos (Nat.lt_of_not_le hn)]
    exact .error _

/-- The operations on slots in memory are those on values. -/
theorem lawful_layout : layout.Lawful where
  capacity_eq h := h.capacity_eq
  size_eq h := h.size_eq
  contains_eq {m s S} h v := by
    change (decide (v < s.capacity) && found (members m s) (UInt16.ofNat v)) =
      S.values.contains v
    rw [h.capacity_eq, List.contains_eq_mem]
    by_cases hv : v < S.capacity
    · rw [h.found_eq (Nat.lt_of_lt_of_le hv h.capacity_le), decide_eq_true hv, Bool.true_and]
    · have hout : v ∉ S.values := fun hmem => hv (S.bounded v hmem)
      simp [hv, hout]
  first_eq {m s S} h := by
    change (members m s).head?.map UInt16.toNat = S.values.head?
    rw [← h.values_eq, valuesAt, List.head?_map, members]
  toList_eq h := h.values_eq
  arena_eq h := h.arena_eq
  holds_of_changed hchanged hapart h := h.of_changed hchanged hapart
  create h n := create_agrees h n
  copy {m s S} hused h := .copy (fun h => h.arena_eq)
    (fun hchanged hapart h => IsOf.of_changed h hchanged hapart)
    (fun hs ht hcap => IsOf.copyOnto hs ht hcap) h h.capacity_le
    (h.capacity_eq ▸ create_agrees hused s.capacity)
  add h hv := h.add hv
  push h hv hlast := h.push hv (hlast rfl)
  remove h hv := h.remove hv
  clear h := h.clear
  fill h := h.fill
  invert h := h.invert
  unite h h' hapart hcap := h.unite h' hapart hcap
  subtract h h' hapart hcap := h.subtract h' hapart hcap
  copyOnto h h' _ hcap := h.copyOnto h' hcap
  retain keep h := h.retain keep

end CardSearch.SlotRange
