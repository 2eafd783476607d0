import CardSearch.VersionSet.Words

/-!
# Version sets as ascending lists

The members stand in ascending order. Every set takes the room for the largest one.
-/

namespace CardSearch

/-- The members of either of two ascending lists, in ascending order. -/
def mergeAscending : List Nat → List Nat → List Nat
  | [], bs => bs
  | as, [] => as
  | a :: as, b :: bs =>
    if a < b then a :: mergeAscending as (b :: bs)
    else if b < a then b :: mergeAscending (a :: as) bs
    else a :: mergeAscending as bs
termination_by as bs => as.length + bs.length

def withoutAscending : List Nat → List Nat → List Nat
  | [], _ => []
  | as, [] => as
  | a :: as, b :: bs =>
    if a < b then a :: withoutAscending as (b :: bs)
    else if b < a then withoutAscending (a :: as) bs
    else withoutAscending as bs
termination_by as bs => as.length + bs.length

theorem mem_mergeAscending {v : Nat} (as bs : List Nat) :
    v ∈ mergeAscending as bs ↔ v ∈ as ∨ v ∈ bs := by
  fun_induction mergeAscending as bs with
  | case1 => simp
  | case2 => simp
  | case3 a as b bs _ ih => simp [ih, or_assoc]
  | case4 a as b bs _ _ ih =>
    simp only [List.mem_cons, ih]
    grind
  | case5 a as b bs h₁ h₂ ih =>
    have : a = b := by omega
    simp only [List.mem_cons, ih]
    grind

theorem pairwise_mergeAscending {as bs : List Nat} (ha : as.Pairwise (· < ·))
    (hb : bs.Pairwise (· < ·)) : (mergeAscending as bs).Pairwise (· < ·) := by
  fun_induction mergeAscending as bs with
  | case1 => exact hb
  | case2 => exact ha
  | case3 a as b bs _ ih =>
    have ⟨hfirst, hrest⟩ := List.pairwise_cons.1 ha
    have ⟨hother, _⟩ := List.pairwise_cons.1 hb
    refine List.pairwise_cons.2 ⟨fun v hv => ?_, ih hrest hb⟩
    have := (mem_mergeAscending ..).1 hv
    grind
  | case4 a as b bs _ _ ih =>
    have ⟨hfirst, _⟩ := List.pairwise_cons.1 ha
    have ⟨hother, hrest⟩ := List.pairwise_cons.1 hb
    refine List.pairwise_cons.2 ⟨fun v hv => ?_, ih ha hrest⟩
    have := (mem_mergeAscending ..).1 hv
    grind
  | case5 a as b bs _ _ ih =>
    have ⟨hfirst, hrest⟩ := List.pairwise_cons.1 ha
    have ⟨hother, hlast⟩ := List.pairwise_cons.1 hb
    refine List.pairwise_cons.2 ⟨fun v hv => ?_, ih hrest hlast⟩
    have := (mem_mergeAscending ..).1 hv
    grind

theorem mem_withoutAscending {v : Nat} {as bs : List Nat} (ha : as.Pairwise (· < ·))
    (hb : bs.Pairwise (· < ·)) : v ∈ withoutAscending as bs ↔ v ∈ as ∧ v ∉ bs := by
  fun_induction withoutAscending as bs with
  | case1 => simp
  | case2 => simp
  | case3 a as b bs _ ih =>
    simp only [List.pairwise_cons] at ha hb
    have := ih ha.2 (List.pairwise_cons.2 hb)
    grind
  | case4 a as b bs _ _ ih =>
    simp only [List.pairwise_cons] at ha hb
    have := ih (List.pairwise_cons.2 ha) hb.2
    grind
  | case5 a as b bs h₁ h₂ ih =>
    simp only [List.pairwise_cons] at ha hb
    have := ih ha.2 hb.2
    grind

theorem withoutAscending_sublist (as bs : List Nat) : (withoutAscending as bs).Sublist as := by
  fun_induction withoutAscending as bs with
  | case1 => exact .refl _
  | case2 => exact .refl _
  | case3 a as b bs _ ih => exact ih.cons_cons a
  | case4 a as b bs _ _ ih => exact ih
  | case5 a as b bs _ _ ih => exact ih.cons a

/-- A set of numbers below a capacity, as the ascending list of its members. -/
structure SortedSet where
  capacity : Nat
  values : List Nat
  ascending : values.Pairwise (· < ·)
  bounded : ∀ v ∈ values, v < capacity
  deriving DecidableEq, Repr

namespace SortedSet

def empty (capacity : Nat) : SortedSet := ⟨capacity, [], .nil, by simp⟩

def add (s : SortedSet) (value : Nat) : SortedSet :=
  if h : value < s.capacity then
    { s with
      values := mergeAscending s.values [value]
      ascending := pairwise_mergeAscending s.ascending (by simp)
      bounded := fun v hv => by
        rcases (mem_mergeAscending ..).1 hv with hv | hv
        · exact s.bounded v hv
        · simp_all }
  else s

def remove (s : SortedSet) (values : List Nat) : SortedSet :=
  { s with
    values := withoutAscending s.values values
    ascending := s.ascending.sublist (withoutAscending_sublist ..)
    bounded := fun v hv => s.bounded v ((withoutAscending_sublist ..).subset hv) }

def fill (s : SortedSet) : SortedSet where
  capacity := s.capacity
  values := List.range s.capacity
  ascending := List.pairwise_lt_range
  bounded := fun _ hv => List.mem_range.1 hv

/-- The members of either set, of those below the capacity of the first. -/
def unite (s t : SortedSet) : SortedSet where
  capacity := s.capacity
  values := mergeAscending s.values (t.values.filter (· < s.capacity))
  ascending := pairwise_mergeAscending s.ascending (t.ascending.filter _)
  bounded := fun v hv => by
    rcases (mem_mergeAscending ..).1 hv with hv | hv
    · exact s.bounded v hv
    · simpa using (List.mem_filter.1 hv).2

instance : VersionSet SortedSet where
  largest := mostVersions
  slotsFor := fun _ => mostVersions
  empty := fun capacity _ => empty capacity
  capacity := capacity
  size := fun s => s.values.length
  contains := fun s value => s.values.contains value
  add := add
  remove := remove
  clear := fun s => empty s.capacity
  fill := fill
  invert := fun s => s.fill.remove s.values
  unite := unite
  subtract := fun s t => s.remove t.values
  toList := values

/-- How many slots a number of bytes holds: two bytes to a slot, and only whole sets. -/
def arenaSlots (bytes : Nat) : Nat := bytes / 2 / mostVersions * mostVersions

end SortedSet

end CardSearch
