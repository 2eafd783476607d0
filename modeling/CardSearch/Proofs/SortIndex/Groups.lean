import CardSearch.SortIndex.Format
import Mathlib.Data.List.Dedup
import Mathlib.Data.List.SplitBy

/-!
# Groups of rows

The groups of an index stand for the keys of its rows in ascending order: each of them holds the
rows of one key, in the order in which the rows were given.
-/

namespace CardSearch.SortIndex

variable {rows : List SortRow} {keys : List Int64}

def sortedRows (rows : List SortRow) : List SortRow :=
  rows.mergeSort (fun a b => a.key ≤ b.key)

def rowsOf (rows : List SortRow) (key : Int64) : List SortRow := rows.filter (·.key == key)

def ascendingKeys (rows : List SortRow) : List Int64 := ((sortedRows rows).map (·.key)).dedup

@[simp] theorem mem_rowsOf {row : SortRow} {key : Int64} :
    row ∈ rowsOf rows key ↔ row ∈ rows ∧ row.key = key := by simp [rowsOf]

@[simp] theorem mem_sortedRows {row : SortRow} : row ∈ sortedRows rows ↔ row ∈ rows :=
  List.mem_mergeSort

theorem key_le_trans (a b c : SortRow) (hab : decide (a.key ≤ b.key) = true)
    (hbc : decide (b.key ≤ c.key) = true) : decide (a.key ≤ c.key) = true := by
  simp only [decide_eq_true_eq] at *
  exact Int64.le_trans hab hbc

theorem key_le_total (a b : SortRow) :
    (decide (a.key ≤ b.key) || decide (b.key ≤ a.key)) = true := by
  simpa using Int64.le_total a.key b.key

theorem pairwise_sortedRows (rows : List SortRow) :
    (sortedRows rows).Pairwise (·.key ≤ ·.key) :=
  (List.pairwise_mergeSort key_le_trans key_le_total rows).imp fun h => by simpa using h

theorem rowsOf_sortedRows (rows : List SortRow) (key : Int64) :
    rowsOf (sortedRows rows) key = rowsOf rows key := by
  have hequal : (rowsOf rows key).Pairwise fun a b => decide (a.key ≤ b.key) = true := by
    rw [List.pairwise_iff_forall_sublist]
    intro a b hab
    have ha := (mem_rowsOf.1 (hab.subset (by simp : a ∈ [a, b]))).2
    have hb := (mem_rowsOf.1 (hab.subset (by simp : b ∈ [a, b]))).2
    simp [ha, hb]
  have hsublist : (rowsOf rows key).Sublist (sortedRows rows) :=
    List.sublist_mergeSort key_le_trans key_le_total hequal List.filter_sublist
  have hfilter : (rowsOf rows key).Sublist (rowsOf (sortedRows rows) key) := by
    simpa [rowsOf, List.filter_filter] using hsublist.filter (·.key == key)
  have hlength : (rowsOf rows key).length = (rowsOf (sortedRows rows) key).length :=
    ((List.mergeSort_perm rows _).symm.filter _).length_eq
  exact (hfilter.eq_of_length hlength).symm

theorem ascending_ascendingKeys (rows : List SortRow) :
    (ascendingKeys rows).Pairwise (· < ·) := by
  have hle : ((sortedRows rows).map (·.key)).Pairwise (· ≤ ·) :=
    List.pairwise_map.2 (pairwise_sortedRows rows)
  have hne : (ascendingKeys rows).Pairwise (· ≠ ·) := List.nodup_dedup _
  exact ((hle.sublist (List.dedup_sublist _)).and hne).imp fun ⟨hle, hne⟩ =>
    Int64.lt_of_le_of_ne hle hne

@[simp] theorem mem_ascendingKeys {key : Int64} :
    key ∈ ascendingKeys rows ↔ ∃ row ∈ rows, row.key = key := by
  simp [ascendingKeys]

/-- The rows of the least key stand before all others. -/
theorem eq_rowsOf_append {key : Int64} (hrows : rows.Pairwise (·.key ≤ ·.key))
    (hleast : ∀ row ∈ rows, key ≤ row.key) :
    rows = rowsOf rows key ++ rows.filter (·.key != key) := by
  induction rows with
  | nil => rfl
  | cons row rows ih =>
    obtain ⟨hrow, hrows⟩ := List.pairwise_cons.1 hrows
    obtain ⟨hle, hleast⟩ := List.forall_mem_cons.1 hleast
    by_cases heq : row.key = key
    · have hfirst : rowsOf (row :: rows) key = row :: rowsOf rows key := by simp [rowsOf, heq]
      have hrest : (row :: rows).filter (·.key != key) = rows.filter (·.key != key) := by simp [heq]
      rw [hfirst, hrest, List.cons_append, ← ih hrows hleast]
    · have hall : ∀ other ∈ row :: rows, other.key ≠ key := by
        intro other hother hkey
        rcases List.mem_cons.1 hother with rfl | hother
        · exact heq hkey
        · exact heq (Int64.le_antisymm (hkey ▸ hrow other hother) hle)
      have hnone : rowsOf (row :: rows) key = [] :=
        List.filter_eq_nil_iff.2 fun other hother => by simpa using hall other hother
      have hrest : (row :: rows).filter (·.key != key) = row :: rows :=
        List.filter_eq_self.2 fun other hother => by simpa using hall other hother
      rw [hnone, hrest, List.nil_append]

/-- Rows that stand in ascending order are the rows of each of their keys one after the other. -/
theorem flatMap_rowsOf (hkeys : keys.Pairwise (· < ·)) (hrows : rows.Pairwise (·.key ≤ ·.key))
    (hmem : ∀ row ∈ rows, row.key ∈ keys) : keys.flatMap (rowsOf rows) = rows := by
  induction keys generalizing rows with
  | nil =>
    cases rows with
    | nil => rfl
    | cons row rows => exact absurd (hmem row (by simp)) List.not_mem_nil
  | cons key keys ih =>
    obtain ⟨hkey, hkeys⟩ := List.pairwise_cons.1 hkeys
    have hleast : ∀ row ∈ rows, key ≤ row.key := by
      intro row hrow
      rcases List.mem_cons.1 (hmem row hrow) with heq | hlater
      · exact heq ▸ Int64.le_refl _
      · exact Int64.le_of_lt (hkey _ hlater)
    have hothers : ∀ other ∈ keys, rowsOf (rows.filter (·.key != key)) other = rowsOf rows other := by
      intro other hother
      rw [rowsOf, List.filter_filter]
      refine List.filter_congr fun row _ => ?_
      have hne : other ≠ key := fun heq => Int64.lt_irrefl (heq ▸ hkey other hother)
      by_cases heq : row.key = other <;> simp [heq, hne]
    have htail := ih hkeys (hrows.sublist List.filter_sublist) fun row hrow => by
      have hmemFilter : row ∈ rows ∧ (row.key != key) = true := List.mem_filter.1 hrow
      exact (List.mem_cons.1 (hmem row hmemFilter.1)).resolve_left (by simpa using hmemFilter.2)
    conv => rhs; rw [eq_rowsOf_append hrows hleast, ← htail]
    rw [List.flatMap_cons, List.flatMap_congr hothers]

theorem groupRows_eq (rows : List SortRow) :
    groupRows rows = (ascendingKeys rows).map (rowsOf rows) := by
  have hflatten : ((ascendingKeys rows).map (rowsOf rows)).flatten = sortedRows rows := by
    have hsorted := flatMap_rowsOf (ascending_ascendingKeys rows) (pairwise_sortedRows rows)
      fun row hrow => mem_ascendingKeys.2 ⟨row, mem_sortedRows.1 hrow, rfl⟩
    rwa [funext (rowsOf_sortedRows rows), List.flatMap_def] at hsorted
  have hnonempty : ∀ key ∈ ascendingKeys rows, rowsOf rows key ≠ [] := by
    intro key hkey
    obtain ⟨row, hrow, heq⟩ := mem_ascendingKeys.1 hkey
    exact List.ne_nil_of_mem (mem_rowsOf.2 ⟨hrow, heq⟩)
  rw [groupRows, ← sortedRows, ← hflatten]
  refine List.splitBy_flatten ?_ ?_ ?_
  · intro hnil
    obtain ⟨key, hkey, heq⟩ := List.mem_map.1 hnil
    exact hnonempty key hkey heq
  · intro group hgroup
    obtain ⟨key, -, rfl⟩ := List.mem_map.1 hgroup
    refine List.Pairwise.isChain (List.pairwise_of_forall_mem_list fun a ha b hb => ?_)
    simp [(mem_rowsOf.1 ha).2, (mem_rowsOf.1 hb).2]
  · rw [List.isChain_map]
    refine ((ascending_ascendingKeys rows).imp_of_mem fun {key key'} hkey hkey' hlt => ?_).isChain
    refine ⟨hnonempty key hkey, hnonempty key' hkey', ?_⟩
    have hlast := (mem_rowsOf.1 (List.getLast_mem (hnonempty key hkey))).2
    have hhead := (mem_rowsOf.1 (List.head_mem (hnonempty key' hkey'))).2
    rw [hlast, hhead]
    simpa using Int64.ne_of_lt hlt

end CardSearch.SortIndex
