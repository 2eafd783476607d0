import CardSearch.Proofs.SortIndex.RoundTrip
import CardSearch.Sorter

/-!
# Sorting by a written index

The index that is read from the file of some rows lists them by their keys, and rows of one key in
the order in which they were given, whatever the direction. Sorting keeps of them the rows that
speak for a matching record.
-/

namespace CardSearch

/-- No two rows stand for the same: the same record in an index of records, the same version of
the same record in an index of versions. -/
def SortKind.Distinct (kind : SortKind) (rows : List SortRow) : Prop :=
  match kind with
  | .byRecord => (rows.map (·.entry.record)).Nodup
  | .byVersion => (rows.map (·.entry)).Nodup

def SortKind.Qualifies (kind : SortKind) (version? : Nat → Option Nat) (row : SortRow) : Prop :=
  match kind with
  | .byRecord => (version? row.entry.record.toNat).isSome
  | .byVersion => version? row.entry.record.toNat = some row.entry.version.toNat

instance (kind : SortKind) (version? : Nat → Option Nat) (row : SortRow) :
    Decidable (kind.Qualifies version? row) :=
  match kind with
  | .byRecord => inferInstanceAs (Decidable ((version? row.entry.record.toNat).isSome = true))
  | .byVersion =>
    inferInstanceAs (Decidable (version? row.entry.record.toNat = some row.entry.version.toNat))

namespace SortIndex

/-- A row comes before another: its key comes first in the direction, or the keys are equal and it
was given first. -/
def Precedes (rows : List SortRow) (ascending : Bool) (a b : SortRow) : Prop :=
  (if ascending then a.key < b.key else b.key < a.key) ∨ a.key = b.key ∧ [a, b].Sublist rows

/-- The records of the rows that qualify, each of them once, in the order of the rows. -/
structure Sorts (kind : SortKind) (rows : List SortRow) (version? : Nat → Option Nat)
    (length : Nat) (ascending : Bool) (chosen : List SortRow) (records : List Nat) : Prop where
  records_eq : records = chosen.map (·.entry.record.toNat)
  mem_iff : ∀ row, row ∈ chosen ↔
    row ∈ rows ∧ row.entry.record.toNat < length ∧ kind.Qualifies version? row
  nodup : records.Nodup
  ordered : chosen.Pairwise (Precedes rows ascending)

variable {order : String} {kind : SortKind} {creationTime : UInt64} {rows : List SortRow}
  {version? : Nat → Option Nat} {length : Nat} {ascending : Bool}

def keysInDirection (rows : List SortRow) (ascending : Bool) : List Int64 :=
  if ascending then ascendingKeys rows else (ascendingKeys rows).reverse

def listing (rows : List SortRow) (ascending : Bool) : List SortRow :=
  (keysInDirection rows ascending).flatMap (rowsOf rows)

theorem listing_perm (rows : List SortRow) (ascending : Bool) :
    (listing rows ascending).Perm rows := by
  have hkeys : (keysInDirection rows ascending).Perm (ascendingKeys rows) := by
    cases ascending with
    | true => exact .refl _
    | false => exact List.reverse_perm _
  calc (listing rows ascending).Perm ((ascendingKeys rows).flatMap (rowsOf rows)) :=
        hkeys.flatMap_right _
    _ = sortedRows rows := by rw [List.flatMap_def, ← groupRows_eq, groupRows, List.flatten_splitBy]; rfl
    _ |>.Perm rows := List.mergeSort_perm _ _

private theorem ordered_keysInDirection (rows : List SortRow) (ascending : Bool) :
    (keysInDirection rows ascending).Pairwise
      fun key key' => if ascending then key < key' else key' < key := by
  cases ascending with
  | true => exact ascending_ascendingKeys rows
  | false => exact List.pairwise_reverse.2 (ascending_ascendingKeys rows)

theorem ordered_listing (rows : List SortRow) (ascending : Bool) :
    (listing rows ascending).Pairwise (Precedes rows ascending) := by
  rw [listing, List.pairwise_flatMap]
  constructor
  · intro key _
    rw [List.pairwise_iff_forall_sublist]
    intro a b hab
    have ha := mem_rowsOf.1 (hab.subset (by simp : a ∈ [a, b]))
    have hb := mem_rowsOf.1 (hab.subset (by simp : b ∈ [a, b]))
    exact .inr ⟨ha.2.trans hb.2.symm, hab.trans List.filter_sublist⟩
  · refine (ordered_keysInDirection rows ascending).imp fun hkeys a ha b hb => .inl ?_
    rwa [(mem_rowsOf.1 ha).2, (mem_rowsOf.1 hb).2]

def chosenRows (kind : SortKind) (rows : List SortRow) (version? : Nat → Option Nat) (length : Nat)
    (ascending : Bool) : List SortRow :=
  (listing rows ascending).filter fun row =>
    row.entry.record.toNat < length ∧ kind.Qualifies version? row

theorem mem_chosenRows {row : SortRow} : row ∈ chosenRows kind rows version? length ascending ↔
    row ∈ rows ∧ row.entry.record.toNat < length ∧ kind.Qualifies version? row := by
  rw [chosenRows, List.mem_filter, (listing_perm rows ascending).mem_iff, decide_eq_true_eq]

theorem record_keptEntry (kind : SortKind) (row : SortRow) :
    (keptEntry kind row).record = row.entry.record := by
  cases kind <;> rfl

private theorem selects_keptEntry (row : SortRow) :
    (written order kind creationTime rows).selects version? length (keptEntry kind row) =
      decide (row.entry.record.toNat < length ∧ kind.Qualifies version? row) := by
  rw [selects, record_keptEntry, Bool.decide_and]
  congr 1
  cases kind with
  | byRecord => exact Bool.decide_eq_true.symm
  | byVersion => exact beq_eq_decide _ _

private theorem flatten_groupsInDirection :
    ((written order kind creationTime rows).groupsInDirection ascending).flatten =
      (listing rows ascending).map (keptEntry kind) := by
  rw [groupsInDirection, written, listing, List.flatMap_def, List.map_flatten, groupRows_eq]
  cases ascending <;> simp [keysInDirection]

theorem sort_written :
    (written order kind creationTime rows).sort version? length ascending =
      (chosenRows kind rows version? length ascending).map (·.entry.record.toNat) := by
  have hselects : (written order kind creationTime rows).selects version? length ∘ keptEntry kind =
      fun row => decide (row.entry.record.toNat < length ∧ kind.Qualifies version? row) :=
    funext selects_keptEntry
  rw [sort, flatten_groupsInDirection, List.filter_map, hselects, List.map_map, chosenRows]
  refine List.map_congr_left fun row _ => ?_
  rw [Function.comp_apply, record_keptEntry]

private theorem pairwise_keptEntry_ne (h : kind.Distinct rows) :
    rows.Pairwise fun a b => keptEntry kind a ≠ keptEntry kind b := by
  cases kind with
  | byRecord =>
    refine (List.pairwise_map.1 h).imp fun hrecord heq => hrecord ?_
    rw [← record_keptEntry .byRecord, heq, record_keptEntry]
  | byVersion => exact List.pairwise_map.1 h

theorem keptEntry_eq {a b : SortRow} (ha : kind.Qualifies version? a)
    (hb : kind.Qualifies version? b) (h : a.entry.record.toNat = b.entry.record.toNat) :
    keptEntry kind a = keptEntry kind b := by
  have hrecord : a.entry.record = b.entry.record := UInt16.toNat_inj.1 h
  cases kind with
  | byRecord => rw [keptEntry, keptEntry, hrecord]
  | byVersion =>
    have hversion : some a.entry.version.toNat = some b.entry.version.toNat :=
      ha.symm.trans ((congrArg version? h).trans hb)
    have hentry : a.entry = b.entry := by
      rw [SortEntry.mk.injEq]
      exact ⟨hrecord, UInt16.toNat_inj.1 (Option.some.inj hversion)⟩
    exact hentry

private theorem nodup_chosenRows (h : kind.Distinct rows) :
    ((chosenRows kind rows version? length ascending).map (·.entry.record.toNat)).Nodup := by
  have hlisting : (listing rows ascending).Pairwise fun a b => keptEntry kind a ≠ keptEntry kind b :=
    ((listing_perm rows ascending).pairwise_iff fun hne => hne.symm).2 (pairwise_keptEntry_ne h)
  rw [List.Nodup, List.pairwise_map]
  refine (hlisting.sublist List.filter_sublist).imp_of_mem fun {a b} ha hb hne heq => hne ?_
  exact keptEntry_eq (mem_chosenRows.1 ha).2.2 (mem_chosenRows.1 hb).2.2 heq

/-- Reading the file of some rows succeeds, and the index sorts by the keys of the rows: for every
match, every length and both directions, with the rows of one key as they were given. -/
theorem sorts_of_write (hlength : order.utf8ByteSize ≤ keyLength) (hzero : '\x00' ∉ order.toList)
    (hrows : rows.length < 2 ^ 32) (hdistinct : kind.Distinct rows) :
    ∃ index, read (write order kind creationTime rows) = .ok index ∧
      ∀ version? length ascending, ∃ chosen,
        Sorts kind rows version? length ascending chosen
          (index.sort version? length ascending) := by
  refine ⟨written order kind creationTime rows, read_write hlength hzero hrows, ?_⟩
  intro version? length ascending
  refine ⟨chosenRows kind rows version? length ascending, ?_⟩
  rw [sort_written]
  exact {
    records_eq := rfl
    mem_iff := fun row => mem_chosenRows
    nodup := nodup_chosenRows hdistinct
    ordered := (ordered_listing rows ascending).sublist List.filter_sublist }

/-- Two versions of record 0 and one of record 3; the records tie for the key 5. -/
def tiedRows : List SortRow := [⟨5, ⟨3, 0⟩⟩, ⟨-2, ⟨0, 1⟩⟩, ⟨5, ⟨0, 0⟩⟩]

theorem sorts_of_write_tiedRows :
    ("released_at".utf8ByteSize ≤ keyLength ∧ '\x00' ∉ "released_at".toList ∧
      tiedRows.length < 2 ^ 32 ∧ SortKind.byVersion.Distinct tiedRows) ∧
    ∃ index, read (write "released_at" .byVersion 7 tiedRows) = .ok index ∧
      ∀ version? length ascending, ∃ chosen,
        Sorts .byVersion tiedRows version? length ascending chosen
          (index.sort version? length ascending) := by
  have hdistinct : SortKind.byVersion.Distinct tiedRows := by
    unfold SortKind.Distinct
    decide
  exact ⟨⟨by decide, by decide, by decide, hdistinct⟩,
    sorts_of_write (by decide) (by decide) (by decide) hdistinct⟩

/-- Record 3 comes first in both directions if record 0 matches with its version 0. -/
example : (written "released_at" .byVersion 7 tiedRows).sort (fun _ => some 0) 4 false = [3, 0] := by
  cbv

end SortIndex

end CardSearch
