import CardSearch.Proofs.VersionSet.Laws
import CardSearch.VersionSet.Sorted

/-!
# Version sets as ascending lists are lawful

The list is the set; merging and differencing ascending lists keep the order, and act on the
members as union and difference do.
-/

namespace CardSearch

/-- An ascending list of numbers below a bound is no longer than the bound. -/
theorem length_le_of_ascending {vs : List Nat} {n : Nat} (h : vs.Pairwise (· < ·))
    (hlt : ∀ v ∈ vs, v < n) : vs.length ≤ n := by
  have hsub := List.subperm_of_subset (h.imp Nat.ne_of_lt) fun v hv =>
    List.mem_range.2 (hlt v hv)
  simpa using hsub.length_le

/-- What is without the members of an ascending list is what is left when they are filtered out. -/
theorem withoutAscending_eq_filter {as bs : List Nat} (ha : as.Pairwise (· < ·))
    (hb : bs.Pairwise (· < ·)) : withoutAscending as bs = as.filter (· ∉ bs) :=
  eq_of_mem_iff_of_ascending (ha.sublist (withoutAscending_sublist ..)) (ha.filter _) fun v => by
    simp [mem_withoutAscending ha hb]

/-- An ascending list is cut at a value by the number of members below it. -/
theorem take_countP_lt {vs : List Nat} (h : vs.Pairwise (· < ·)) (v : Nat) :
    vs.take (vs.countP (· < v)) = vs.filter (· < v) ∧
      vs.drop (vs.countP (· < v)) = vs.filter (v ≤ ·) := by
  induction vs with
  | nil => exact ⟨rfl, rfl⟩
  | cons a vs ih =>
    obtain ⟨hfirst, hrest⟩ := List.pairwise_cons.1 h
    by_cases hlt : a < v
    · have := ih hrest
      simp_all [Nat.not_le.2 hlt]
    · have hnone : vs.countP (· < v) = 0 := List.countP_eq_zero.2 fun w hw => by
        have := hfirst w hw
        simpa using by omega
      have hall : vs.filter (v ≤ ·) = vs := List.filter_eq_self.2 fun w hw => by
        have := hfirst w hw
        simpa using by omega
      have hfilter : vs.filter (· < v) = [] := List.filter_eq_nil_iff.2 fun w hw => by
        have := hfirst w hw
        simpa using by omega
      simp [hlt, hnone, hall, hfilter, Nat.not_lt.1 hlt]

/-- A value is in an ascending list if it stands where the cut at the value is. -/
theorem getElem?_countP_lt {vs : List Nat} (h : vs.Pairwise (· < ·)) (v : Nat) :
    vs[vs.countP (· < v)]? = some v ↔ v ∈ vs := by
  rw [← List.head?_drop, (take_countP_lt h v).2, head?_eq_some_iff_isLeast (h.filter _)]
  constructor
  · exact fun hleast => (List.mem_filter.1 hleast.1).1
  · exact fun hv => ⟨List.mem_filter.2 ⟨hv, by simp⟩, fun w hw => by
      simpa using (List.mem_filter.1 hw).2⟩

/-- A value put at the cut keeps the order. -/
theorem pairwise_filter_append {vs : List Nat} (h : vs.Pairwise (· < ·)) {v : Nat} (hv : v ∉ vs) :
    (vs.filter (· < v) ++ v :: vs.filter (v ≤ ·)).Pairwise (· < ·) := by
  refine List.pairwise_append.2 ⟨h.filter _, List.pairwise_cons.2 ⟨fun w hw => ?_, h.filter _⟩,
    fun w hw u hu => ?_⟩
  · obtain ⟨hw, hle⟩ := List.mem_filter.1 hw
    have hne : w ≠ v := fun heq => hv (heq ▸ hw)
    have hle : v ≤ w := by simpa using hle
    omega
  · have hlt : w < v := by simpa using (List.mem_filter.1 hw).2
    rcases List.mem_cons.1 hu with rfl | hu
    · exact hlt
    · have hle : v ≤ u := by simpa using (List.mem_filter.1 hu).2
      omega

/-- Filtering one value out of an ascending list joins what stands before it and after it. -/
theorem filter_ne_of_ascending {as bs : List Nat} {v : Nat}
    (h : (as ++ v :: bs).Pairwise (· < ·)) : (as ++ v :: bs).filter (· ≠ v) = as ++ bs := by
  obtain ⟨-, hbs, hlt⟩ := List.pairwise_append.1 h
  have has : as.filter (· ≠ v) = as := List.filter_eq_self.2 fun w hw => by
    simpa using Nat.ne_of_lt (hlt w hw v List.mem_cons_self)
  have hbs : bs.filter (· ≠ v) = bs := List.filter_eq_self.2 fun w hw => by
    simpa using Nat.ne_of_gt ((List.pairwise_cons.1 hbs).1 w hw)
  rw [List.filter_append, List.filter_cons_of_neg (by simp), has, hbs]

/-- Dropping what is below a value leaves an ascending list with the same members from the value
on, of which the value is the first if it is a member. -/
theorem dropWhile_lt {vs : List Nat} (h : vs.Pairwise (· < ·)) (v : Nat) :
    (vs.dropWhile (· < v)).Pairwise (· < ·) ∧
    (∀ w, v ≤ w → (w ∈ vs.dropWhile (· < v) ↔ w ∈ vs)) ∧
    ((vs.dropWhile (· < v)).head? = some v ↔ v ∈ vs) := by
  induction vs with
  | nil => simp
  | cons a vs ih =>
    obtain ⟨hfirst, hrest⟩ := List.pairwise_cons.1 h
    by_cases hlt : a < v
    · obtain ⟨hasc, hmem, hhead⟩ := ih hrest
      rw [List.dropWhile_cons_of_pos (by simpa using hlt)]
      refine ⟨hasc, fun w hw => ?_, ?_⟩
      · rw [hmem w hw, List.mem_cons]
        grind
      · rw [hhead, List.mem_cons]
        grind
    · rw [List.dropWhile_cons_of_neg (by simpa using hlt)]
      refine ⟨h, fun _ _ => Iff.rfl, ?_⟩
      rw [List.head?_cons, List.mem_cons]
      grind

/-- What is below a value does not matter to what comes after it. -/
theorem filter_dropWhile_lt {vs ws : List Nat} (h : vs.Pairwise (· < ·)) {v : Nat}
    (hws : ∀ w ∈ ws, v < w) :
    ws.filter (· ∉ vs.dropWhile (· < v)) = ws.filter (· ∉ vs) :=
  List.filter_congr fun w hw => by
    simp only [(dropWhile_lt h v).2.1 w (Nat.le_of_lt (hws w hw))]

/-- Two ascending lists end in the greatest of their members, before which come the others. -/
theorem mergeAscending_concat {as bs as' bs' : List Nat} {c : Nat} (ha : as.Pairwise (· < ·))
    (hb : bs.Pairwise (· < ·)) (ha' : as'.Pairwise (· < ·)) (hb' : bs'.Pairwise (· < ·))
    (hmem : ∀ v, v ∈ as ∨ v ∈ bs ↔ (v ∈ as' ∨ v ∈ bs') ∨ v = c)
    (hlt : ∀ v, v ∈ as' ∨ v ∈ bs' → v < c) :
    mergeAscending as bs = mergeAscending as' bs' ++ [c] := by
  have hasc : (mergeAscending as' bs' ++ [c]).Pairwise (· < ·) :=
    List.pairwise_append.2 ⟨pairwise_mergeAscending ha' hb', List.pairwise_singleton _ c,
      fun v hv w hw => by
        rw [List.mem_singleton.1 hw]
        exact hlt v ((mem_mergeAscending ..).1 hv)⟩
  refine eq_of_mem_iff_of_ascending (pairwise_mergeAscending ha hb) hasc fun v => ?_
  rw [mem_mergeAscending, hmem, List.mem_append, mem_mergeAscending, List.mem_singleton]

theorem mergeAscending_concat_left {as bs : List Nat} {c : Nat} (ha : (as ++ [c]).Pairwise (· < ·))
    (hb : bs.Pairwise (· < ·)) (hlt : ∀ v ∈ bs, v < c) :
    mergeAscending (as ++ [c]) bs = mergeAscending as bs ++ [c] := by
  obtain ⟨ha', -, halt⟩ := List.pairwise_append.1 ha
  refine mergeAscending_concat ha hb ha' hb (fun v => ?_) fun v hv => ?_
  · rw [List.mem_append, List.mem_singleton, or_right_comm]
  · exact hv.elim (fun hv => halt v hv c (List.mem_singleton.2 rfl)) (hlt v)

theorem mergeAscending_concat_right {as bs : List Nat} {c : Nat} (ha : as.Pairwise (· < ·))
    (hb : (bs ++ [c]).Pairwise (· < ·)) (hlt : ∀ v ∈ as, v < c) :
    mergeAscending as (bs ++ [c]) = mergeAscending as bs ++ [c] := by
  obtain ⟨hb', -, hblt⟩ := List.pairwise_append.1 hb
  refine mergeAscending_concat ha hb ha hb' (fun v => ?_) fun v hv => ?_
  · rw [List.mem_append, List.mem_singleton, or_assoc]
  · exact hv.elim (hlt v) fun hv => hblt v hv c (List.mem_singleton.2 rfl)

theorem mergeAscending_concat_both {as bs : List Nat} {c : Nat} (ha : (as ++ [c]).Pairwise (· < ·))
    (hb : (bs ++ [c]).Pairwise (· < ·)) :
    mergeAscending (as ++ [c]) (bs ++ [c]) = mergeAscending as bs ++ [c] := by
  obtain ⟨ha', -, halt⟩ := List.pairwise_append.1 ha
  obtain ⟨hb', -, hblt⟩ := List.pairwise_append.1 hb
  refine mergeAscending_concat ha hb ha' hb' (fun v => ?_) fun v hv => ?_
  · rw [List.mem_append, List.mem_append, List.mem_singleton, or_or_or_comm, or_self]
  · exact hv.elim (fun hv => halt v hv c (List.mem_singleton.2 rfl))
      fun hv => hblt v hv c (List.mem_singleton.2 rfl)

theorem length_le_mergeAscending {as : List Nat} (ha : as.Pairwise (· < ·)) (bs : List Nat) :
    as.length ≤ (mergeAscending as bs).length :=
  (List.subperm_of_subset (ha.imp Nat.ne_of_lt) fun _ hv =>
    (mem_mergeAscending as bs).2 (.inl hv)).length_le

namespace SortedSet

theorem mem_remove (s : SortedSet) {vs : List Nat} (h : vs.Pairwise (· < ·)) (v : Nat) :
    v ∈ (s.remove vs).values ↔ v ∈ s.values ∧ v ∉ vs :=
  mem_withoutAscending s.ascending h

instance : LawfulVersionSet SortedSet where
  ascending s := s.ascending
  lt_capacity s v h := s.bounded v h
  contains_iff s v := List.contains_iff_mem
  size_eq s := rfl
  capacity_empty h := rfl
  toList_empty h := rfl
  capacity_add s w := by
    simp only [VersionSet.capacity, VersionSet.add, add]
    split <;> rfl
  mem_add s v w := by
    simp only [VersionSet.toList, VersionSet.add, VersionSet.capacity, add]
    split
    · simp [mem_mergeAscending, *]
    · simp [*]
  capacity_remove s vs := rfl
  mem_remove s vs h v := s.mem_remove h v
  capacity_clear s := rfl
  toList_clear s := rfl
  capacity_fill s := rfl
  toList_fill s := rfl
  capacity_invert s := rfl
  mem_invert s v :=
    (s.fill.mem_remove s.ascending v).trans (and_congr_left' List.mem_range)
  capacity_unite s t := rfl
  mem_unite {s t} h v := by
    have h : s.capacity = t.capacity := h
    simp only [VersionSet.toList, VersionSet.unite, unite, mem_mergeAscending, List.mem_filter,
      decide_eq_true_eq]
    exact or_congr_right ⟨And.left, fun hv => ⟨hv, h ▸ t.bounded v hv⟩⟩
  capacity_subtract s t := rfl
  mem_subtract {s t} _ v := s.mem_remove t.ascending v

end SortedSet

end CardSearch
