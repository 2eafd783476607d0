import CardSearch.Proofs.VersionSet.Ascending
import CardSearch.Proofs.VersionSet.Mathematical
import CardSearch.VersionSet.SlotRange

/-!
# Version sets in a range of slots act as values

The slots of a handle, up to its number of members, are the ascending list of the value. A value
that is added or removed moves those behind it by one slot.
-/

namespace CardSearch

namespace SlotRange

variable {m m' : Memory UInt16} {s t : SlotRange} {S T S' : SortedSet} {v : Nat}

def region (s : SlotRange) : Region := ⟨s.offset, mostVersions⟩

def valuesAt (m : Memory UInt16) (offset count : Nat) : List Nat :=
  (m.window offset count).map UInt16.toNat

structure IsOf (m : Memory UInt16) (s : SlotRange) (S : SortedSet) : Prop where
  capacity_eq : s.capacity = S.capacity
  capacity_le : S.capacity ≤ mostVersions
  le_used : s.offset + mostVersions ≤ m.used
  used_le : m.used ≤ m.size
  values_eq : valuesAt m s.offset s.size = S.values

def layout : Layout SlotRange (Memory UInt16) SortedSet where
  region := region
  Holds := IsOf
  Changed := Memory.ChangedIn

theorem toNat_ofNat {n : Nat} (h : n < mostVersions) : (UInt16.ofNat n).toNat = n :=
  UInt16.toNat_ofNat_of_lt' (Nat.lt_trans h (by decide))

@[simp] theorem length_valuesAt (m : Memory UInt16) (offset count : Nat) :
    (valuesAt m offset count).length = count := by
  simp [valuesAt]

@[simp] theorem valuesAt_zero (m : Memory UInt16) (offset : Nat) : valuesAt m offset 0 = [] := rfl

theorem valuesAt_append (m : Memory UInt16) (offset count more : Nat) :
    valuesAt m offset (count + more) =
      valuesAt m offset count ++ valuesAt m (offset + count) more := by
  simp [valuesAt, Memory.window_append]

theorem valuesAt_succ (m : Memory UInt16) (offset count : Nat) :
    valuesAt m offset (count + 1) =
      valuesAt m offset count ++ [(m.read (offset + count)).toNat] := valuesAt_append m offset count 1

theorem valuesAt_succ_cons (m : Memory UInt16) (offset count : Nat) :
    valuesAt m offset (count + 1) = (m.read offset).toNat :: valuesAt m (offset + 1) count := by
  simp [valuesAt, Memory.window_succ_cons]

theorem valuesAt_of_changed {r : Region} (h : Memory.ChangedIn r m m') {offset count : Nat}
    (hapart : r.offset + r.length ≤ offset ∨ offset + count ≤ r.offset) :
    valuesAt m' offset count = valuesAt m offset count := by
  rw [valuesAt, h.window_eq hapart, valuesAt]

theorem valuesAt_write {i offset count : Nat} (h : i < offset ∨ offset + count ≤ i) (a : UInt16) :
    valuesAt (m.write i a) offset count = valuesAt m offset count := by
  rw [valuesAt, Memory.window_write_of_not_mem m h, valuesAt]

theorem valuesAt_move {source target count : Nat} (h : target + count ≤ m.size) :
    valuesAt (m.move source target count) target count = valuesAt m source count := by
  rw [valuesAt, Memory.window_move m h, valuesAt]

theorem valuesAt_pred (m : Memory UInt16) (offset : Nat) {count : Nat} (h : 0 < count) :
    valuesAt m offset count =
      valuesAt m offset (count - 1) ++ [(m.read (offset + count - 1)).toNat] := by
  obtain ⟨n, rfl⟩ := Nat.exists_eq_add_of_lt h
  rw [Nat.zero_add]
  exact valuesAt_succ m offset n

theorem le_last_of_mem_valuesAt {offset count : Nat} (h : 0 < count)
    (hasc : (valuesAt m offset count).Pairwise (· < ·)) {v : Nat} (hv : v ∈ valuesAt m offset count) :
    v ≤ (m.read (offset + count - 1)).toNat := by
  rw [valuesAt_pred m offset h] at hasc hv
  rcases List.mem_append.1 hv with hv | hv
  · exact Nat.le_of_lt ((List.pairwise_append.1 hasc).2.2 v hv _ (List.mem_singleton.2 rfl))
  · exact Nat.le_of_eq (List.mem_singleton.1 hv)

def Fills (m m' : Memory UInt16) (offset count : Nat) (vs : List Nat) : Prop :=
  Memory.ChangedIn ⟨offset, count⟩ m m' ∧ valuesAt m' offset count = vs

/-- After a slot was written, those before it are filled. -/
theorem Fills.concat {offset k : Nat} {c : UInt16} {vs : List Nat} (hk : 0 < k)
    (hroom : offset + k ≤ m.size)
    (h : Fills (m.write (offset + k - 1) c) m' offset (k - 1) vs) :
    Fills m m' offset k (vs ++ [c.toNat]) := by
  obtain ⟨hchanged, hvalues⟩ := h
  have hlast : m'.read (offset + k - 1) = c := by
    rw [hchanged.read_eq (by simp only [Region.Contains]; omega),
      Memory.read_write_self m (by omega)]
  refine ⟨.trans (.write m (by simp only [Region.Contains]; omega) c)
    (hchanged.mono fun i hi => ?_), ?_⟩
  · simp only [Region.Contains] at *
    omega
  · rw [valuesAt_pred m' offset hk, hvalues, hlast]

/-- After a slot was written, those behind it are filled. -/
theorem Fills.cons {offset n : Nat} {c : UInt16} {vs : List Nat} (hroom : offset < m.size)
    (h : Fills (m.write offset c) m' (offset + 1) n vs) :
    Fills m m' offset (n + 1) (c.toNat :: vs) := by
  obtain ⟨hchanged, hvalues⟩ := h
  have hfirst : m'.read offset = c := by
    rw [hchanged.read_eq (by simp only [Region.Contains]; omega), Memory.read_write_self m hroom]
  refine ⟨.trans (.write m (by simp only [Region.Contains]; omega) c)
    (hchanged.mono fun i hi => ?_), ?_⟩
  · simp only [Region.Contains] at *
    omega
  · rw [valuesAt_succ_cons, hvalues, hfirst]

namespace IsOf

theorem size_eq (h : IsOf m s S) : s.size = S.values.length := by
  rw [← h.values_eq, length_valuesAt]

private theorem size_le_capacity (h : IsOf m s S) : s.size ≤ S.capacity := by
  rw [h.size_eq]
  exact length_le_of_ascending S.ascending S.bounded

theorem le_size (h : IsOf m s S) : s.offset + mostVersions ≤ m.size :=
  Nat.le_trans h.le_used h.used_le

theorem size_le (h : IsOf m s S) : s.size ≤ mostVersions :=
  Nat.le_trans h.size_le_capacity h.capacity_le

theorem of_changed (h : IsOf m s S) {r : Region} (hchanged : Memory.ChangedIn r m m')
    (hapart : s.region.Apart r) : IsOf m' s S where
  capacity_eq := h.capacity_eq
  capacity_le := h.capacity_le
  le_used := hchanged.used_eq ▸ h.le_used
  used_le := by
    rw [hchanged.size_eq, hchanged.used_eq]
    exact h.used_le
  values_eq := by
    rw [valuesAt_of_changed hchanged, h.values_eq]
    have := h.size_le
    unfold Region.Apart region at hapart
    dsimp only at hapart
    omega

/-- A handle is left with a value by a change of its range after which the values are right. -/
theorem updates (h : IsOf m s S) (hchanged : Memory.ChangedIn s.region m m')
    (hcap : S'.capacity = S.capacity) {n : Nat} (hvalues : valuesAt m' s.offset n = S'.values) :
    layout.Updates m s ({ s with size := n }, m') S' where
  holds :=
    { capacity_eq := h.capacity_eq.trans hcap.symm
      capacity_le := hcap ▸ h.capacity_le
      le_used := hchanged.used_eq ▸ h.le_used
      used_le := by
        rw [hchanged.size_eq, hchanged.used_eq]
        exact h.used_le
      values_eq := hvalues }
  region_eq := rfl
  changed := hchanged

theorem contains_place {i : Nat} (h : i < mostVersions) : s.region.Contains (s.offset + i) :=
  ⟨Nat.le_add_right .., Nat.add_lt_add_left h _⟩

theorem place_eq (h : IsOf m s S) (hv : v < mostVersions) :
    place (members m s) (UInt16.ofNat v) = S.values.countP (· < v) := by
  rw [place, ← h.values_eq, valuesAt, List.countP_map]
  refine List.countP_congr fun a _ => ?_
  simp [UInt16.lt_iff_toNat_lt, toNat_ofNat hv]

theorem found_eq (h : IsOf m s S) (hv : v < mostVersions) :
    found (members m s) (UInt16.ofNat v) = decide (v ∈ S.values) := by
  have hget : S.values[place (members m s) (UInt16.ofNat v)]? = some v ↔
      (members m s)[place (members m s) (UInt16.ofNat v)]? = some (UInt16.ofNat v) := by
    generalize place (members m s) (UInt16.ofNat v) = p
    rw [← h.values_eq, valuesAt, List.getElem?_map, members]
    cases (m.window s.offset s.size)[p]? with
    | none => simp
    | some a => simp [← UInt16.toNat_inj, toNat_ofNat hv]
  rw [found, Bool.eq_iff_iff, beq_iff_eq, ← hget, h.place_eq hv, getElem?_countP_lt S.ascending]
  simp

/-- The members come in two parts, those before the place of a value and the others. -/
theorem valuesAt_place (h : IsOf m s S) (v : Nat) :
    S.values.countP (· < v) ≤ s.size ∧
    valuesAt m s.offset (S.values.countP (· < v)) = S.values.filter (· < v) ∧
    valuesAt m (s.offset + S.values.countP (· < v)) (s.size - S.values.countP (· < v)) =
      S.values.filter (v ≤ ·) := by
  have hle : S.values.countP (· < v) ≤ s.size := h.size_eq ▸ List.countP_le_length
  obtain ⟨htake, hdrop⟩ := take_countP_lt S.ascending v
  have hsplit := valuesAt_append m s.offset (S.values.countP (· < v))
    (s.size - S.values.countP (· < v))
  rw [Nat.add_sub_cancel' hle, h.values_eq] at hsplit
  generalize S.values.countP (· < v) = p at *
  refine ⟨hle, ?_, ?_⟩
  · rw [← htake, hsplit, List.take_left' (length_valuesAt ..)]
  · rw [← hdrop, hsplit, List.drop_left' (length_valuesAt ..)]

theorem add (h : IsOf m s S) (hv : v < S.capacity) :
    layout.Updates m s (SlotRange.add m s v) (VersionSet.add S v) := by
  have hlt : v < mostVersions := Nat.lt_of_lt_of_le hv h.capacity_le
  have hcap := LawfulVersionSet.capacity_add S v
  have hasc := (VersionSet.add S v).ascending
  have hmem (w : Nat) : w ∈ (VersionSet.add S v).values ↔ w ∈ S.values ∨ w = v :=
    (LawfulVersionSet.mem_add S w v).trans (or_congr_right (and_iff_left hv))
  simp only [SlotRange.add, h.found_eq hlt, decide_eq_true_eq, h.place_eq hlt]
  split
  · next hin =>
    refine h.updates (.refl _ m) hcap (h.values_eq.trans ?_)
    refine eq_of_mem_iff_of_ascending S.ascending hasc fun w => ?_
    rw [hmem]
    grind
  · next hout =>
    obtain ⟨hle, hbelow, habove⟩ := h.valuesAt_place v
    have hvalues : (VersionSet.add S v).values =
        S.values.filter (· < v) ++ v :: S.values.filter (v ≤ ·) := by
      refine eq_of_mem_iff_of_ascending hasc (pairwise_filter_append S.ascending hout) fun w => ?_
      rw [hmem]
      simp only [List.mem_append, List.mem_cons, List.mem_filter, decide_eq_true_eq]
      have := Nat.lt_or_ge w v
      grind
    have hroom : s.size + 1 ≤ mostVersions := by
      have hlength := congrArg List.length hvalues
      have hbound := length_le_of_ascending hasc (VersionSet.add S v).bounded
      have := h.capacity_le
      have hcap : (VersionSet.add S v).capacity = S.capacity := hcap
      rw [← hbelow, ← habove] at hlength
      simp only [List.length_append, List.length_cons, length_valuesAt] at hlength
      omega
    have hsize := h.le_size
    generalize S.values.countP (· < v) = p at *
    have hcount : s.offset + s.size - (s.offset + p) = s.size - p := by omega
    rw [hcount]
    have hmove := m.changedIn_move (s.offset + p) (s.offset + p + 1) (s.size - p)
    have hchanged : Memory.ChangedIn s.region m
        ((m.move (s.offset + p) (s.offset + p + 1) (s.size - p)).write (s.offset + p)
          (UInt16.ofNat v)) := by
      refine (hmove.mono fun i hi => ?_).trans (.write _ (contains_place (by omega)) _)
      simp only [Region.Contains, region] at *
      omega
    refine h.updates hchanged hcap ?_
    rw [show s.size + 1 = p + 1 + (s.size - p) by omega, valuesAt_append, valuesAt_succ,
      valuesAt_write (by omega), valuesAt_write (by omega), ← Nat.add_assoc,
      valuesAt_move (by omega), valuesAt_of_changed hmove (by simp), hbelow, habove,
      Memory.read_write_self _ (by rw [hmove.size_eq]; omega), toNat_ofNat hlt, hvalues]
    simp

theorem remove (h : IsOf m s S) (hv : v < S.capacity) :
    layout.Updates m s (SlotRange.remove m s v) (VersionSet.remove S [v]) := by
  have hlt : v < mostVersions := Nat.lt_of_lt_of_le hv h.capacity_le
  have hcap := LawfulVersionSet.capacity_remove S [v]
  have hvalues : (VersionSet.remove S [v]).values = S.values.filter (· ≠ v) := by
    refine (withoutAscending_eq_filter S.ascending (List.pairwise_singleton _ v)).trans ?_
    simp
  simp only [SlotRange.remove, h.found_eq hlt, decide_eq_true_eq, h.place_eq hlt]
  split
  · next hin =>
    have hsize := h.le_size
    have hlast := h.size_le
    have hget := (getElem?_countP_lt S.ascending v).2 hin
    generalize S.values.countP (· < v) = p at *
    have hp : p < s.size := h.size_eq ▸ (List.getElem?_eq_some_iff.1 hget).1
    have hsplit : S.values = valuesAt m s.offset p ++
        v :: valuesAt m (s.offset + p + 1) (s.size - (p + 1)) := by
      have hcut := valuesAt_append m s.offset p (s.size - (p + 1) + 1)
      rw [show p + (s.size - (p + 1) + 1) = s.size by omega, h.values_eq, valuesAt_succ_cons] at hcut
      rw [hcut, List.getElem?_append_right (by simp), length_valuesAt, Nat.sub_self] at hget
      rw [hcut, Option.some.inj hget]
    have hmove := m.changedIn_move (s.offset + p + 1) (s.offset + p) (s.size - (p + 1))
    have hchanged : Memory.ChangedIn s.region m
        (m.move (s.offset + p + 1) (s.offset + p) (s.size - (p + 1))) := hmove.mono fun i hi => by
      simp only [Region.Contains, region] at *
      omega
    refine h.updates hchanged hcap ?_
    have hasc := S.ascending
    rw [hsplit] at hasc
    rw [show s.size - 1 = p + (s.size - (p + 1)) by omega, valuesAt_append,
      valuesAt_of_changed hmove (by simp), valuesAt_move (by omega), hvalues, hsplit,
      filter_ne_of_ascending hasc]
  · next hout =>
    refine h.updates (.refl _ m) hcap (h.values_eq.trans ?_)
    rw [hvalues]
    exact (List.filter_eq_self.2 fun w hw => by
      have : w ≠ v := fun heq => hout (heq ▸ hw)
      simpa using this).symm

theorem push (h : IsOf m s S) (hv : v < S.capacity) (hlast : ∀ w ∈ S.values, w < v) :
    layout.Updates m s
      ({ s with size := s.size + 1 }, m.write (s.offset + s.size) (UInt16.ofNat v))
      (VersionSet.add S v) := by
  have hlt : v < mostVersions := Nat.lt_of_lt_of_le hv h.capacity_le
  have hasc : (S.values ++ [v]).Pairwise (· < ·) :=
    List.pairwise_append.2 ⟨S.ascending, List.pairwise_singleton _ v, fun w hw u hu => by
      rw [List.mem_singleton.1 hu]
      exact hlast w hw⟩
  have hvalues : (VersionSet.add S v).values = S.values ++ [v] := by
    refine eq_of_mem_iff_of_ascending (VersionSet.add S v).ascending hasc fun w => ?_
    refine (LawfulVersionSet.mem_add S w v).trans ?_
    have hv : v < VersionSet.capacity S := hv
    simp [hv, VersionSet.toList]
  have hroom : s.size < mostVersions := by
    have hbound := length_le_of_ascending hasc (n := S.capacity) fun w hw => by
      rcases List.mem_append.1 hw with hw | hw
      · exact S.bounded w hw
      · rw [List.mem_singleton.1 hw]
        exact hv
    have := h.capacity_le
    rw [List.length_append, ← h.size_eq, List.length_singleton] at hbound
    omega
  refine h.updates (.write m (contains_place hroom) _) (LawfulVersionSet.capacity_add S v) ?_
  have hsize := h.le_size
  rw [valuesAt_succ, valuesAt_write (by omega), h.values_eq,
    Memory.read_write_self _ (by omega), toNat_ofNat hlt, hvalues]

theorem clear (h : IsOf m s S) :
    layout.Updates m s ({ s with size := 0 }, m) (VersionSet.clear S) :=
  h.updates (.refl _ m) (LawfulVersionSet.capacity_clear S)
    (LawfulVersionSet.toList_clear S).symm

/-- Writing an ascending list of numbers below the capacity makes it the members. -/
theorem writeAll (h : IsOf m s S) (S' : SortedSet) (hcap : S'.capacity = S.capacity) :
    layout.Updates m s ({ s with size := S'.values.length },
      m.writeAll s.offset (S'.values.map UInt16.ofNat)) S' := by
  have hlt (w : Nat) (hw : w ∈ S'.values) : w < mostVersions :=
    Nat.lt_of_lt_of_le (hcap ▸ S'.bounded w hw) h.capacity_le
  have hlength : S'.values.length ≤ mostVersions := length_le_of_ascending S'.ascending hlt
  have hsize := h.le_size
  have hwrite := m.changedIn_writeAll s.offset (S'.values.map UInt16.ofNat)
  have hchanged := hwrite.mono (t := s.region) fun i hi => by
    rw [List.length_map] at hi
    simp only [Region.Contains, region] at *
    omega
  refine h.updates hchanged hcap ?_
  have hwindow := m.window_writeAll s.offset (S'.values.map UInt16.ofNat)
    (by rw [List.length_map]; omega)
  rw [List.length_map] at hwindow
  rw [valuesAt, hwindow, List.map_map]
  exact (List.map_congr_left fun w hw => toNat_ofNat (hlt w hw)).trans (List.map_id _)

theorem fill (h : IsOf m s S) :
    layout.Updates m s (SharedSet.fill m s) (VersionSet.fill S) := by
  have hfill := h.writeAll (VersionSet.fill S) (LawfulVersionSet.capacity_fill S)
  have hvalues : (VersionSet.fill S).values = List.range S.capacity :=
    LawfulVersionSet.toList_fill S
  rw [hvalues, List.length_range, ← h.capacity_eq] at hfill
  change layout.Updates m s ((fillTo m s s.capacity).toOption.getD (s, m)) _
  rw [fillTo, if_neg (Nat.lt_irrefl _)]
  exact hfill

end IsOf

/-- Writing the absent ones of the values of a list is writing the list without those present. -/
theorem writeAbsent_eq (m : Memory UInt16) (offset : Nat) (present : List UInt16) (vs : List Nat)
    (n : Nat) (hpresent : (present.map UInt16.toNat).Pairwise (· < ·)) (hvs : vs.Pairwise (· < ·))
    (hsub : ∀ v ∈ present.map UInt16.toNat, v ∈ vs) :
    let absent := vs.filter (· ∉ present.map UInt16.toNat)
    writeAbsent m offset present n vs =
      (n + absent.length, m.writeAll (offset + n) (absent.map UInt16.ofNat)) := by
  induction vs generalizing m present n with
  | nil => rfl
  | cons v vs ih =>
    obtain ⟨hfirst, hrest⟩ := List.pairwise_cons.1 hvs
    rw [writeAbsent]
    split
    · next hhead =>
      -- the next one that is present is the value itself, and all others are above it
      cases present with
      | nil => cases hhead
      | cons p present =>
        obtain rfl : p.toNat = v := by simpa using hhead
        rw [List.map_cons] at hpresent hsub
        obtain ⟨habove, hpresent⟩ := List.pairwise_cons.1 hpresent
        have hnext := ih m present n hpresent hrest fun w hw => by
          have := habove w hw
          rcases List.mem_cons.1 (hsub w (List.mem_cons_of_mem _ hw)) with rfl | hw
          · exact absurd this (Nat.lt_irrefl _)
          · exact hw
        have hfilter : (p.toNat :: vs).filter (· ∉ (p :: present).map UInt16.toNat) =
            vs.filter (· ∉ present.map UInt16.toNat) := by
          rw [List.filter_cons_of_neg (by simp)]
          refine List.filter_congr fun w hw => ?_
          have hne : w ≠ p.toNat := Nat.ne_of_gt (hfirst w hw)
          simp only [List.map_cons, List.mem_cons, hne, false_or]
        simp only [hfilter]
        exact hnext
    · next hhead =>
      have hout : v ∉ present.map UInt16.toNat := by
        cases present with
        | nil => simp
        | cons p present =>
          have hhead : p.toNat ≠ v := by simpa using hhead
          rw [List.map_cons] at hpresent hsub
          have hp : v < p.toNat := by
            rcases List.mem_cons.1 (hsub _ List.mem_cons_self) with heq | hp
            · exact absurd heq hhead
            · exact hfirst _ hp
          intro hv
          rw [List.map_cons] at hv
          rcases List.mem_cons.1 hv with heq | hv
          · exact hhead heq.symm
          · have := (List.pairwise_cons.1 hpresent).1 v hv
            omega
      have hnext := ih (m.write (offset + n) (UInt16.ofNat v)) present (n + 1) hpresent hrest
        fun w hw => (List.mem_cons.1 (hsub w hw)).resolve_left fun heq => hout (heq ▸ hw)
      simp only [List.filter_cons_of_pos (p := (decide <| · ∉ present.map UInt16.toNat))
        (decide_eq_true hout)]
      rw [hnext, List.length_cons, List.map_cons, Memory.writeAll]
      simp only [Nat.add_assoc, Nat.add_comm 1]

namespace IsOf

theorem invert (h : IsOf m s S) :
    layout.Updates m s (SharedSet.invert m s) (VersionSet.invert S) := by
  have hpresent : (members m s).map UInt16.toNat = S.values := h.values_eq
  have habsent : (VersionSet.invert S).values =
      (List.range S.capacity).filter (· ∉ S.values) :=
    withoutAscending_eq_filter List.pairwise_lt_range S.ascending
  have hwrite := writeAbsent_eq m s.offset (members m s) (List.range S.capacity) 0
    (hpresent ▸ S.ascending) List.pairwise_lt_range fun v hv =>
      List.mem_range.2 (S.bounded v (hpresent ▸ hv))
  simp only [hpresent, ← habsent, Nat.zero_add, Nat.add_zero] at hwrite
  have hupdates := h.writeAll (VersionSet.invert S) (LawfulVersionSet.capacity_invert S)
  change layout.Updates m s
    ({ s with size := (writeAbsent m s.offset (members m s) 0 (List.range s.capacity)).1 },
      (writeAbsent m s.offset (members m s) 0 (List.range s.capacity)).2) _
  rw [← h.capacity_eq] at hwrite
  rw [hwrite]
  exact hupdates

theorem copyOnto (h : IsOf m s S) (h' : IsOf m t T) (hcap : S.capacity = T.capacity) :
    layout.Updates m t (SlotRange.copyOnto m s t) S := by
  have hsize := h.size_le
  have hsize' := h'.le_size
  have hmove := m.changedIn_move s.offset t.offset s.size
  refine h'.updates (hmove.mono fun i hi => ?_) hcap ?_
  · simp only [Region.Contains, region] at *
    omega
  · rw [valuesAt_move (by omega), h.values_eq]

end IsOf

end SlotRange

end CardSearch
