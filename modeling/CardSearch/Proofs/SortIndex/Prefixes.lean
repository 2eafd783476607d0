import CardSearch.Proofs.SortIndex.RoundTrip

/-!
# A written index and its prefixes

Reading the file of some rows gives one group for each of their keys, in ascending order of the
keys, and in each group the rows of its key as they were given. Nothing can be cut off: a file that
ends early ends inside the header, inside the table of group ends or inside the entries, and the
parts before the cut are read as in the whole file until the bytes run out.
-/

namespace CardSearch.SortIndex

variable {order : String} {kind : SortKind} {creationTime : UInt64} {rows : List SortRow}

/-- The index holds the rows in groups, one for each of the keys. -/
structure Indexes (order : String) (kind : SortKind) (creationTime : UInt64) (rows : List SortRow)
    (keys : List Int64) (index : SortIndex) : Prop where
  kind_eq : index.kind = kind
  creationTime_eq : index.creationTime = creationTime
  order_eq : index.order = order
  ascending : keys.Pairwise (· < ·)
  mem_keys : ∀ key, key ∈ keys ↔ ∃ row ∈ rows, row.key = key
  groups_eq : index.groups = keys.map fun key =>
    (rows.filter (·.key == key)).map (keptEntry kind)
  sizes_eq : index.groups.map List.length = keys.map fun key => rows.countP (·.key == key)

private theorem indexes_written :
    Indexes order kind creationTime rows (ascendingKeys rows)
      (written order kind creationTime rows) := by
  have hgroups : (written order kind creationTime rows).groups =
      (ascendingKeys rows).map fun key => (rows.filter (·.key == key)).map (keptEntry kind) := by
    rw [written, groupRows_eq, List.map_map]
    rfl
  exact {
    kind_eq := rfl
    creationTime_eq := rfl
    order_eq := rfl
    ascending := ascending_ascendingKeys rows
    mem_keys := fun key => mem_ascendingKeys
    groups_eq := hgroups
    sizes_eq := by
      rw [hgroups, List.map_map]
      refine List.map_congr_left fun key _ => ?_
      rw [Function.comp_apply, List.length_map, List.countP_eq_length_filter] }

/-- A prefix of two parts ends inside the first, or it is the first with a prefix of the second. -/
theorem lt_or_exists_of_prefix_append {front back cut : List UInt8} (h : cut <+: front ++ back) :
    cut.length < front.length ∨ ∃ rest, rest <+: back ∧ cut = front ++ rest := by
  by_cases hlength : cut.length < front.length
  · exact .inl hlength
  · obtain ⟨rest, rfl⟩ := List.prefix_of_prefix_length_le (List.prefix_append front back) h
      (Nat.le_of_not_lt hlength)
    exact .inr ⟨rest, (List.prefix_append_right_inj front).1 h, rfl⟩

/-- Reading a file that ends early finds too few bytes somewhere. -/
theorem read_of_prefix (hlength : order.utf8ByteSize ≤ keyLength) (hzero : '\x00' ∉ order.toList)
    (hrows : rows.length < 2 ^ 32) {cut : List UInt8}
    (hcut : cut <+: write order kind creationTime rows)
    (hne : cut ≠ write order kind creationTime rows) :
    ∃ offset needed, read cut = .error (.truncated offset needed cut.length) ∧
      cut.length < offset + needed := by
  have hsizes : (groupSizes rows).length < 256 ^ 4 :=
    lt_of_le_of_lt (length_groupSizes_le rows) hrows
  have hsum : (groupSizes rows).sum < 256 ^ 4 := (sum_groupSizes rows).trans_lt hrows
  rw [write_eq] at hcut hne
  obtain hheader | ⟨body, hbody, rfl⟩ := lt_or_exists_of_prefix_append hcut
  · -- the cut lies in the header
    rw [length_headerBytes] at hheader
    exact ⟨0, tableOffset, if_pos hheader, by omega⟩
  obtain htable | ⟨entries, hentries, rfl⟩ := lt_or_exists_of_prefix_append hbody
  · -- the header is whole, and the cut lies in the table of group ends
    rw [length_tableBytes] at htable
    have hshort : (headerBytes order kind creationTime (groupSizes rows).length ++ body).length <
        tableOffset + 4 * (groupSizes rows).length := by
      rw [List.length_append, length_headerBytes]
      omega
    refine ⟨tableOffset, 4 * (groupSizes rows).length, ?_, hshort⟩
    rw [(header_append body).read_eq hlength hzero hsizes (by simp [length_headerBytes])]
    exact if_pos hshort
  · -- the cut lies in the entries, of which the table tells how many bytes there must be
    have hshort : entries.length < (groupSizes rows).sum * kind.entrySize := by
      rw [sum_groupSizes, ← length_entriesBytes]
      refine lt_of_le_of_ne hentries.length_le fun heq => hne ?_
      rw [hentries.eq_of_length heq]
    rw [length_append_table, read_append_table hlength hzero hsizes hsum, if_pos hshort]
    exact ⟨_, _, rfl, by omega⟩

/-- Reading the file of some rows gives the order, the kind and the creation time back, and the rows
in groups by their keys, if the name of the order fits its room and the rows can be counted. No file
that ends before it does can be read. -/
theorem write_reads_back (hlength : order.utf8ByteSize ≤ keyLength)
    (hzero : '\x00' ∉ order.toList) (hrows : rows.length < 2 ^ 32) :
    (∃ index keys, read (write order kind creationTime rows) = .ok index ∧
      Indexes order kind creationTime rows keys index) ∧
    ∀ cut, cut <+: write order kind creationTime rows → cut ≠ write order kind creationTime rows →
      ∃ e, read cut = .error e ∧ e.code = "CQ_INDEX_TRUNCATED" := by
  constructor
  · exact ⟨_, _, read_write hlength hzero hrows, indexes_written⟩
  · intro cut hcut hne
    obtain ⟨offset, needed, hread, -⟩ := read_of_prefix hlength hzero hrows hcut hne
    exact ⟨_, hread, rfl⟩

/-- Three records, two of them with the same mana value, and one with a value below zero. -/
def valueRows : List SortRow := [⟨3, ⟨7, 2⟩⟩, ⟨-1, ⟨0, 0⟩⟩, ⟨3, ⟨1, 5⟩⟩]

theorem write_reads_back_valueRows :
    ("cmc".utf8ByteSize ≤ keyLength ∧ '\x00' ∉ "cmc".toList ∧ valueRows.length < 2 ^ 32) ∧
    (∃ index keys, read (write "cmc" .byRecord 7 valueRows) = .ok index ∧
      Indexes "cmc" .byRecord 7 valueRows keys index) ∧
    ∀ cut, cut <+: write "cmc" .byRecord 7 valueRows → cut ≠ write "cmc" .byRecord 7 valueRows →
      ∃ e, read cut = .error e ∧ e.code = "CQ_INDEX_TRUNCATED" :=
  ⟨⟨by decide, by decide, by decide⟩, write_reads_back (by decide) (by decide) (by decide)⟩

/-- An index of records forgets the versions. -/
example : (written "cmc" .byRecord 7 valueRows).groups = [[⟨0, 0⟩], [⟨7, 0⟩, ⟨1, 0⟩]] := by cbv

end CardSearch.SortIndex
