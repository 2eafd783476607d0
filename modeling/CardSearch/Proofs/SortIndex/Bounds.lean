import CardSearch.Proofs.SortIndex.Listing
import CardSearch.Proofs.SortIndex.RoundTrip

/-!
# Reading inside the file of an index

A file may announce any number of groups and any group ends. It is accepted just if it is well
formed, and then every later look at it stays inside: the table of group ends lies in the file, the
group ends do not decrease, and the last of them fits, so that each group is a range of entries that
are there, and the ranges of the groups, taken together, are all entries.

To say so, the file is read once more, entry by entry and group by group, in a way that gives up at
the first byte that is missing.
-/

namespace CardSearch.SortIndex

open Bytes

variable {bytes : List UInt8} {kind : SortKind} {index : SortIndex}

/-- How many groups a file announces. -/
def groupCount (bytes : List UInt8) : Nat := field bytes 32 4

/-- Where the entries start, behind the table of group ends. -/
def entriesOffset (bytes : List UInt8) : Nat := tableOffset + 4 * groupCount bytes

/-- How many entries stand in the first so many groups. -/
def groupEnd (bytes : List UInt8) : Nat → Nat
  | 0 => 0
  | g + 1 => field bytes (tableOffset + 4 * g) 4

/-- What a file must be to be accepted as an index of some kind. Bytes may follow the entries. -/
structure WellFormed (bytes : List UInt8) (kind : SortKind) : Prop where
  header : tableOffset ≤ bytes.length
  letters : bytes.take 4 = magic
  version : field bytes 4 2 = formatVersion
  code : field bytes 6 1 = kind.code.toNat
  key : ∃ order, ofText order = ((bytes.drop keyOffset).take keyLength).takeWhile (· ≠ 0)
  table : entriesOffset bytes ≤ bytes.length
  ends : ∀ g < groupCount bytes, groupEnd bytes g ≤ groupEnd bytes (g + 1)
  entries : entriesOffset bytes + groupEnd bytes (groupCount bytes) * kind.entrySize ≤ bytes.length

/-- The number that stands at a place, if all its bytes are in the file. -/
def field? (bytes : List UInt8) (offset size : Nat) : Option Nat :=
  ((List.range' offset size).mapM fun i => bytes[i]?).map ofLittleEndian

def entryIn? (bytes : List UInt8) (kind : SortKind) (i : Nat) : Option SortEntry := do
  let offset := entriesOffset bytes + kind.entrySize * i
  let record ← field? bytes offset 2
  match kind with
  | .byRecord => some ⟨UInt16.ofNat record, 0⟩
  | .byVersion => do
    let version ← field? bytes (offset + 2) 2
    some ⟨UInt16.ofNat record, UInt16.ofNat version⟩

def groupEnd? (bytes : List UInt8) : Nat → Option Nat
  | 0 => some 0
  | g + 1 => field? bytes (tableOffset + 4 * g) 4

def groupRange? (bytes : List UInt8) (g : Nat) : Option (List Nat) := do
  let start ← groupEnd? bytes g
  let stop ← groupEnd? bytes (g + 1)
  some (List.range' start (stop - start))

def groupOrder (bytes : List UInt8) (ascending : Bool) : List Nat :=
  if ascending then List.range (groupCount bytes) else (List.range (groupCount bytes)).reverse

/-- The numbers of the entries in the order in which sorting visits them. -/
def visits? (bytes : List UInt8) (ascending : Bool) : Option (List Nat) :=
  ((groupOrder bytes ascending).mapM (groupRange? bytes)).map List.flatten

theorem mapM_eq_some_map {α β : Type} {f : α → Option β} {g : α → β} {xs : List α}
    (h : ∀ x ∈ xs, f x = some (g x)) : xs.mapM f = some (xs.map g) := by
  induction xs with
  | nil => rfl
  | cons x xs ih =>
    have hhead := h x List.mem_cons_self
    have htail := ih fun y hy => h y (List.mem_cons_of_mem x hy)
    rw [List.mapM_cons, hhead, htail]
    rfl

theorem mapM_getElem? {offset size : Nat} (h : offset + size ≤ bytes.length) :
    ((List.range' offset size).mapM fun i => bytes[i]?) = some ((bytes.drop offset).take size) := by
  induction size generalizing offset with
  | zero => rfl
  | succ size ih =>
    have hlt : offset < bytes.length := by omega
    have hrest := @ih (offset + 1) (by omega)
    rw [List.range'_succ, List.mapM_cons, hrest, List.getElem?_eq_getElem hlt,
      List.drop_eq_getElem_cons hlt]
    rfl

theorem field?_eq {offset size : Nat} (h : offset + size ≤ bytes.length) :
    field? bytes offset size = some (field bytes offset size) := by
  rw [field?, mapM_getElem? h, field]
  rfl

theorem pieces_eq (size n : Nat) (bytes : List UInt8) :
    pieces size n bytes = (List.range n).map fun i => (bytes.drop (size * i)).take size := by
  induction n generalizing bytes with
  | zero => rfl
  | succ n ih =>
    rw [pieces, ih, List.range_succ_eq_map, List.map_cons, List.map_map, Nat.mul_zero,
      List.drop_zero]
    congr 2
    funext i
    rw [List.drop_drop, Function.comp_apply, Nat.mul_succ, Nat.add_comm]

theorem map_pieces_table (bytes : List UInt8) :
    (pieces 4 (groupCount bytes) (bytes.drop tableOffset)).map ofLittleEndian =
      (List.range' 0 (groupCount bytes)).map fun g => groupEnd bytes (g + 1) := by
  rw [pieces_eq, List.map_map, ← List.range_eq_range']
  refine List.map_congr_left fun g _ => ?_
  rw [Function.comp_apply, List.drop_drop, groupEnd, field]

/-- An entry by its number, whatever follows the file. -/
def entryAt (bytes : List UInt8) (kind : SortKind) (i : Nat) : SortEntry :=
  entryOf kind ((bytes.drop (entriesOffset bytes + kind.entrySize * i)).take kind.entrySize)

theorem map_pieces_entries (bytes : List UInt8) (kind : SortKind) (count : Nat) :
    (pieces kind.entrySize count (bytes.drop (entriesOffset bytes))).map (entryOf kind) =
      (List.range' 0 count).map (entryAt bytes kind) := by
  rw [pieces_eq, List.map_map, ← List.range_eq_range']
  refine List.map_congr_left fun i _ => ?_
  rw [Function.comp_apply, List.drop_drop, entryAt]

private theorem field_drop_take {offset room start size : Nat} (h : start + size ≤ room) :
    field ((bytes.drop offset).take room) start size = field bytes (offset + start) size := by
  rw [field, field, List.drop_take, List.take_take, List.drop_drop, Nat.min_eq_left (by omega)]

/-- An entry that ends inside the file can be read. -/
theorem entryIn?_eq {i : Nat}
    (h : entriesOffset bytes + (i + 1) * kind.entrySize ≤ bytes.length) :
    entryIn? bytes kind i = some (entryAt bytes kind i) := by
  cases kind with
  | byRecord =>
    rw [SortKind.entrySize] at h
    simp only [entryIn?, entryAt, entryOf, SortKind.entrySize]
    rw [field?_eq (by omega), field_drop_take (by omega)]
    rfl
  | byVersion =>
    rw [SortKind.entrySize] at h
    simp only [entryIn?, entryAt, entryOf, SortKind.entrySize]
    rw [field?_eq (by omega), field?_eq (by omega), field_drop_take (by omega),
      field_drop_take (by omega)]
    rfl

def groupRange (ends : Nat → Nat) (g : Nat) : List Nat :=
  List.range' (ends g) (ends (g + 1) - ends g)

variable {ends : Nat → Nat} {first count : Nat}

theorem checkEnds_eq_ok_iff (offset : Nat) :
    checkEnds offset (ends first) ((List.range' first count).map fun g => ends (g + 1)) = .ok () ↔
      ∀ g, first ≤ g → g < first + count → ends g ≤ ends (g + 1) := by
  induction count generalizing first offset with
  | zero =>
    refine iff_of_true rfl fun g hfirst hlt => ?_
    omega
  | succ count ih =>
    rw [List.range'_succ, List.map_cons, checkEnds]
    by_cases hdecrease : ends (first + 1) < ends first
    · rw [if_pos hdecrease]
      refine iff_of_false (by rintro ⟨⟩) fun h => ?_
      have := h first le_rfl (by omega)
      omega
    · rw [if_neg hdecrease, ih]
      constructor
      · intro h g hfirst hlt
        rcases hfirst.eq_or_lt with rfl | hnext
        · omega
        · exact h g hnext (by omega)
      · intro h g hfirst hlt
        exact h g (by omega) (by omega)

theorem getLast?_ends (hzero : ends 0 = 0) (count : Nat) :
    (((List.range' 0 count).map fun g => ends (g + 1)).getLast?).getD 0 = ends count := by
  cases count with
  | zero => exact hzero.symm
  | succ count => rw [List.range'_concat, List.map_append]; simp

theorem cutAt_map {α β : Type} (f : α → β) (done : Nat) (places : List Nat) (xs : List α) :
    cutAt done places (xs.map f) = (cutAt done places xs).map (List.map f) := by
  induction places generalizing done xs with
  | nil => rfl
  | cons place places ih =>
    rw [cutAt, cutAt, List.map_cons, List.map_take, ← ih, List.map_drop]

private theorem ends_le (h : ∀ g, first ≤ g → g < first + count → ends g ≤ ends (g + 1)) :
    ends first ≤ ends (first + count) := by
  induction count with
  | zero => exact le_rfl
  | succ count ih =>
    have hbefore := ih fun g hfirst hlt => h g hfirst (by omega)
    exact hbefore.trans (h (first + count) (by omega) (by omega))

/-- Group ends that do not decrease are the ends of groups of some sizes. -/
theorem groupEnds_steps (h : ∀ g, first ≤ g → g < first + count → ends g ≤ ends (g + 1)) :
    groupEnds (ends first) ((List.range' first count).map fun g => ends (g + 1) - ends g) =
      (List.range' first count).map fun g => ends (g + 1) := by
  induction count generalizing first with
  | zero => rfl
  | succ count ih =>
    have hstep : ends first + (ends (first + 1) - ends first) = ends (first + 1) :=
      Nat.add_sub_of_le (h first le_rfl (by omega))
    rw [List.range'_succ, List.map_cons, List.map_cons, groupEnds, hstep,
      ih fun g hfirst hlt => h g (by omega) (by omega)]

/-- The groups hold all entries, each of them once. -/
theorem flatten_groupRanges (h : ∀ g, first ≤ g → g < first + count → ends g ≤ ends (g + 1)) :
    ((List.range' first count).map (groupRange ends)).flatten =
      List.range' (ends first) (ends (first + count) - ends first) := by
  induction count with
  | zero => rw [Nat.add_zero, Nat.sub_self]; rfl
  | succ count ih =>
    have hbefore : ∀ g, first ≤ g → g < first + count → ends g ≤ ends (g + 1) :=
      fun g hfirst hlt => h g hfirst (by omega)
    have hle := ends_le hbefore
    have hstep := h (first + count) (by omega) (by omega)
    have hstart : ends first + 1 * (ends (first + count) - ends first) = ends (first + count) := by
      omega
    have hsize : ends (first + (count + 1)) - ends first =
        ends (first + count) - ends first + (ends (first + count + 1) - ends (first + count)) := by
      rw [← Nat.add_assoc]
      omega
    rw [List.range'_concat, List.map_append, List.flatten_append, ih hbefore, hsize,
      ← List.range'_append, hstart, Nat.one_mul]
    simp [groupRange]

theorem cutAt_groupRanges (h : ∀ g, first ≤ g → g < first + count → ends g ≤ ends (g + 1)) :
    cutAt (ends first) ((List.range' first count).map fun g => ends (g + 1))
        (List.range' (ends first) (ends (first + count) - ends first)) =
      (List.range' first count).map (groupRange ends) := by
  have hsizes : ((List.range' first count).map (groupRange ends)).map List.length =
      (List.range' first count).map fun g => ends (g + 1) - ends g := by
    rw [List.map_map]
    exact List.map_congr_left fun g _ => List.length_range'
  rw [← groupEnds_steps h, ← hsizes, ← flatten_groupRanges h, cutAt_groupEnds]

private theorem ofLittleEndian_lt (bs : List UInt8) : ofLittleEndian bs < 256 ^ bs.length := by
  induction bs with
  | nil => exact Nat.one_pos
  | cons b bs ih =>
    have hbyte : b.toNat < 256 := b.toNat_lt
    rw [ofLittleEndian, List.length_cons, Nat.pow_succ]
    omega

private theorem field_lt (bytes : List UInt8) (offset size : Nat) :
    field bytes offset size < 256 ^ size :=
  (ofLittleEndian_lt _).trans_le (Nat.pow_le_pow_right (by omega) (List.length_take_le _ _))

private theorem ofCode?_eq_some_iff {code : UInt8} :
    SortKind.ofCode? code = some kind ↔ code = kind.code := by
  constructor
  · intro h
    unfold SortKind.ofCode? at h
    split at h
    · cases h
      assumption
    · split at h
      · cases h
        assumption
      · cases h
  · rintro rfl
    exact ofCode?_code kind

theorem ofCode?_field_iff :
    SortKind.ofCode? (UInt8.ofNat (field bytes 6 1)) = some kind ↔
      field bytes 6 1 = kind.code.toNat := by
  have hlt : field bytes 6 1 < 256 := field_lt bytes 6 1
  rw [ofCode?_eq_some_iff, UInt8.ofNat_eq_iff_mod_eq_toNat, Nat.mod_eq_of_lt hlt]

private theorem text?_eq_some_iff {bs : List UInt8} {s : String} :
    text? bs = some s ↔ ofText s = bs := by
  constructor
  · intro h
    rw [text?, String.fromUTF8?] at h
    split at h
    · cases h
      rfl
    · cases h
  · rintro rfl
    exact text?_ofText s

private theorem checkEnds_table_iff : checkEnds tableOffset 0
      ((List.range' 0 (groupCount bytes)).map fun g => groupEnd bytes (g + 1)) = .ok () ↔
    ∀ g < groupCount bytes, groupEnd bytes g ≤ groupEnd bytes (g + 1) := by
  have hends := @checkEnds_eq_ok_iff (groupEnd bytes) 0 (groupCount bytes) tableOffset
  simpa [groupEnd] using hends

def indexOf (bytes : List UInt8) (kind : SortKind) (order : String) (creationTime : UInt64) :
    SortIndex where
  kind := kind
  creationTime := creationTime
  order := order
  groups := (List.range (groupCount bytes)).map fun g =>
    (groupRange (groupEnd bytes) g).map (entryAt bytes kind)

/-- Behind the header, just those files are accepted whose groups and entries lie inside. -/
theorem readGroups_eq_ok_iff {order : String} {creationTime : UInt64} :
    readGroups order kind creationTime (groupCount bytes) bytes = .ok index ↔
      entriesOffset bytes ≤ bytes.length ∧
      (∀ g < groupCount bytes, groupEnd bytes g ≤ groupEnd bytes (g + 1)) ∧
      entriesOffset bytes + groupEnd bytes (groupCount bytes) * kind.entrySize ≤ bytes.length ∧
      indexOf bytes kind order creationTime = index := by
  have hlast := @getLast?_ends (groupEnd bytes) rfl (groupCount bytes)
  have hentries := map_pieces_entries bytes kind (groupEnd bytes (groupCount bytes))
  unfold readGroups
  rw [← entriesOffset]
  simp only [map_pieces_table, hlast, hentries]
  by_cases htable : bytes.length < entriesOffset bytes
  · rw [if_pos htable]
    exact iff_of_false (by rintro ⟨⟩) fun h => htable.not_ge h.1
  rw [if_neg htable]
  cases hcheck : checkEnds tableOffset 0
      ((List.range' 0 (groupCount bytes)).map fun g => groupEnd bytes (g + 1)) with
  | error e =>
    refine iff_of_false (by rintro ⟨⟩) fun h => ?_
    rw [checkEnds_table_iff.2 h.2.1] at hcheck
    cases hcheck
  | ok =>
    have hends := checkEnds_table_iff.1 hcheck
    have hcut := @cutAt_groupRanges (groupEnd bytes) 0 (groupCount bytes)
      fun g _ hlt => hends g (by omega)
    rw [Nat.zero_add, groupEnd, Nat.sub_zero] at hcut
    dsimp only
    by_cases hroom : bytes.length <
        entriesOffset bytes + groupEnd bytes (groupCount bytes) * kind.entrySize
    · rw [if_pos hroom]
      exact iff_of_false (by rintro ⟨⟩) fun h => hroom.not_ge h.2.2.1
    · rw [if_neg hroom, cutAt_map, hcut, List.map_map, ← List.range_eq_range', Except.ok.injEq]
      constructor
      · intro h
        exact ⟨not_lt.1 htable, hends, not_lt.1 hroom, h⟩
      · rintro ⟨-, -, -, h⟩
        exact h

/-- A file is accepted just if its header is one of an index and what is behind it is accepted. -/
theorem read_eq_ok_iff :
    read bytes = .ok index ↔ tableOffset ≤ bytes.length ∧ bytes.take 4 = magic ∧
      field bytes 4 2 = formatVersion ∧ ∃ kind order, field bytes 6 1 = kind.code.toNat ∧
      ofText order = ((bytes.drop keyOffset).take keyLength).takeWhile (· ≠ 0) ∧
      readGroups order kind (UInt64.ofNat (field bytes 8 8)) (groupCount bytes) bytes =
        .ok index := by
  constructor
  · intro h
    unfold read at h
    dsimp only at h
    split at h
    · cases h
    next hheader =>
    split at h
    · cases h
    next hletters =>
    split at h
    · cases h
    next hversion =>
    split at h
    · cases h
    next kind hkind =>
    split at h
    · cases h
    next order horder =>
    exact ⟨not_lt.1 hheader, not_not.1 hletters, not_not.1 hversion, kind, order,
      ofCode?_field_iff.1 hkind, text?_eq_some_iff.1 horder, h⟩
  · rintro ⟨hheader, hletters, hversion, kind, order, hkind, horder, h⟩
    unfold read
    simp only [hletters, hversion, ofCode?_field_iff.2 hkind, text?_eq_some_iff.2 horder]
    rw [if_neg hheader.not_gt, if_neg (by simp), if_neg (by simp)]
    exact h

theorem wellFormed_of_read (h : read bytes = .ok index) :
    WellFormed bytes index.kind ∧ ∃ order creationTime,
      index = indexOf bytes index.kind order creationTime := by
  obtain ⟨hheader, hletters, hversion, kind, order, hcode, hkey, hgroups⟩ := read_eq_ok_iff.1 h
  obtain ⟨htable, hends, hentries, rfl⟩ := readGroups_eq_ok_iff.1 hgroups
  exact ⟨⟨hheader, hletters, hversion, hcode, ⟨order, hkey⟩, htable, hends, hentries⟩, order, _, rfl⟩

private theorem WellFormed.exists_read (h : WellFormed bytes kind) :
    ∃ index, read bytes = .ok index := by
  obtain ⟨order, hkey⟩ := h.key
  exact ⟨_, read_eq_ok_iff.2 ⟨h.header, h.letters, h.version, kind, order, h.code, hkey,
    readGroups_eq_ok_iff.2 ⟨h.table, h.ends, h.entries, rfl⟩⟩⟩

section Visits

variable {order : String} {creationTime : UInt64} {ascending : Bool}

def visited (bytes : List UInt8) (ascending : Bool) : List Nat :=
  (groupOrder bytes ascending).flatMap (groupRange (groupEnd bytes))

theorem flatten_groupsInDirection_indexOf :
    ((indexOf bytes kind order creationTime).groupsInDirection ascending).flatten =
      (visited bytes ascending).map (entryAt bytes kind) := by
  have hgroups : (indexOf bytes kind order creationTime).groupsInDirection ascending =
      (groupOrder bytes ascending).map fun g =>
        (groupRange (groupEnd bytes) g).map (entryAt bytes kind) := by
    cases ascending with
    | true => rfl
    | false => exact List.map_reverse.symm
  rw [hgroups, visited, List.map_flatMap, List.flatMap]

variable (h : WellFormed bytes kind)

include h

theorem WellFormed.groupEnd?_eq {g : Nat} (hg : g ≤ groupCount bytes) :
    groupEnd? bytes g = some (groupEnd bytes g) := by
  cases g with
  | zero => rfl
  | succ g =>
    have htable := h.table
    unfold entriesOffset at htable
    exact field?_eq (by omega)

private theorem WellFormed.visits?_eq : visits? bytes ascending = some
    (visited bytes ascending) := by
  have hranges : ∀ g ∈ groupOrder bytes ascending,
      groupRange? bytes g = some (groupRange (groupEnd bytes) g) := by
    intro g hmem
    have hg : g < groupCount bytes := by
      cases ascending <;> simpa [groupOrder] using hmem
    rw [groupRange?, h.groupEnd?_eq hg.le, h.groupEnd?_eq hg]
    rfl
  rw [visits?, mapM_eq_some_map hranges, visited, List.flatMap]
  rfl

/-- The groups in their own order hold the entries in theirs. -/
theorem WellFormed.visited_true :
    visited bytes true = List.range (groupEnd bytes (groupCount bytes)) := by
  have hflat := @flatten_groupRanges (groupEnd bytes) 0 (groupCount bytes)
    fun g _ hlt => h.ends g (by omega)
  rwa [Nat.zero_add, groupEnd, Nat.sub_zero, ← List.range_eq_range', ← List.range_eq_range'] at hflat

/-- No entry is left out, and none is visited twice. -/
theorem WellFormed.visited_perm :
    (visited bytes ascending).Perm (List.range (groupEnd bytes (groupCount bytes))) := by
  rw [← h.visited_true]
  cases ascending with
  | true => exact .refl _
  | false => exact (List.reverse_perm _).flatMap_right _

theorem WellFormed.entryIn?_eq {i : Nat} (hi : i < groupEnd bytes (groupCount bytes)) :
    entryIn? bytes kind i = some (entryAt bytes kind i) := by
  have hsize : (i + 1) * kind.entrySize ≤ groupEnd bytes (groupCount bytes) * kind.entrySize :=
    Nat.mul_le_mul_right _ hi
  have hentries := h.entries
  exact SortIndex.entryIn?_eq (by omega)

private theorem WellFormed.mapM_entryIn? :
    (visited bytes ascending).mapM (entryIn? bytes kind) =
      some ((visited bytes ascending).map (entryAt bytes kind)) := by
  apply mapM_eq_some_map
  intro i hmem
  exact h.entryIn?_eq (List.mem_range.1 (h.visited_perm.subset hmem))

private theorem WellFormed.entries_eq :
    (indexOf bytes kind order creationTime).entries =
      (List.range (groupEnd bytes (groupCount bytes))).map (entryAt bytes kind) := by
  rw [← h.visited_true, ← @flatten_groupsInDirection_indexOf bytes kind order creationTime]
  rfl

end Visits

/-- Just the well-formed files are accepted. In an accepted file the number of entries and each of
the entries is read without a look outside; and sorting, whatever matches and in either direction,
reads group ends and entries inside the file only, visits each entry once, and answers from what it
read there. -/
theorem reads_inside (bytes : List UInt8) :
    ((∃ index, read bytes = .ok index) ↔ ∃ kind, WellFormed bytes kind) ∧
    ∀ index, read bytes = .ok index →
      groupEnd? bytes (groupCount bytes) = some index.entries.length ∧
      (∀ i (hi : i < index.entries.length),
        entryIn? bytes index.kind i = some index.entries[i]) ∧
      ∀ version? length ascending, ∃ visited listed,
        visits? bytes ascending = some visited ∧
        visited.Perm (List.range index.entries.length) ∧
        visited.mapM (entryIn? bytes index.kind) = some listed ∧
        index.sort version? length ascending =
          (listed.filter (index.selects version? length)).map (·.record.toNat) ∧
        index.strayCount length = listed.countP fun e => length ≤ e.record.toNat := by
  refine ⟨⟨?_, ?_⟩, ?_⟩
  · rintro ⟨index, hread⟩
    exact ⟨index.kind, (wellFormed_of_read hread).1⟩
  · rintro ⟨kind, h⟩
    exact h.exists_read
  · intro index hread
    obtain ⟨h, order, creationTime, heq⟩ := wellFormed_of_read hread
    have hentries : index.entries =
        (List.range (groupEnd bytes (groupCount bytes))).map (entryAt bytes index.kind) := by
      rw [heq]
      exact h.entries_eq
    have hlength : index.entries.length = groupEnd bytes (groupCount bytes) := by
      rw [hentries, List.length_map, List.length_range]
    refine ⟨?_, ?_, ?_⟩
    · rw [hlength]
      exact h.groupEnd?_eq le_rfl
    · intro i hi
      rw [h.entryIn?_eq (hlength ▸ hi)]
      simp [hentries]
    · intro version? length ascending
      have hlisted : (index.groupsInDirection ascending).flatten =
          (visited bytes ascending).map (entryAt bytes index.kind) := by
        rw [heq]
        exact flatten_groupsInDirection_indexOf
      have hperm := index.groupsInDirection_perm ascending
      refine ⟨_, _, h.visits?_eq, ?_, h.mapM_entryIn?, ?_, ?_⟩
      · rw [hlength]
        exact h.visited_perm
      · rw [sort, hlisted]
      · rw [strayCount, ← hperm.countP_eq, hlisted]

/-- A file with an empty group between two others, whose last entry names a record that no small
catalog has, and with a byte behind the entries. -/
def looseFile : List UInt8 :=
  headerBytes "usd" .byVersion 7 3 ++ (tableBytes [1, 0, 2] ++
    ([⟨4, 0⟩, ⟨2, 1⟩, ⟨700, 0⟩].flatMap (entryBytes .byVersion) ++ [255]))

def looseIndex : SortIndex := ⟨.byVersion, 7, "usd", [[⟨4, 0⟩], [], [⟨2, 1⟩, ⟨700, 0⟩]]⟩

theorem reads_inside_looseFile :
    read looseFile = .ok looseIndex ∧
    groupEnd? looseFile (groupCount looseFile) = some looseIndex.entries.length ∧
    (∀ i (hi : i < looseIndex.entries.length),
      entryIn? looseFile .byVersion i = some looseIndex.entries[i]) ∧
    ∀ version? length ascending, ∃ visited listed,
      visits? looseFile ascending = some visited ∧
      visited.Perm (List.range looseIndex.entries.length) ∧
      visited.mapM (entryIn? looseFile .byVersion) = some listed ∧
      looseIndex.sort version? length ascending =
        (listed.filter (looseIndex.selects version? length)).map (·.record.toNat) ∧
      looseIndex.strayCount length = listed.countP fun e => length ≤ e.record.toNat :=
  ⟨rfl, (reads_inside looseFile).2 looseIndex rfl⟩

/-- Backwards, the last group comes first and keeps its order. There is no fourth entry. -/
example : visits? looseFile false = some [1, 2, 0] ∧ entryIn? looseFile .byVersion 3 = none :=
  ⟨rfl, rfl⟩

end CardSearch.SortIndex
