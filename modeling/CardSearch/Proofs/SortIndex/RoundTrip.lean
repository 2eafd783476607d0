import CardSearch.Proofs.SortIndex.Groups
import Mathlib.Algebra.BigOperators.Group.List.Basic
import Mathlib.Algebra.GroupWithZero.Nat

/-!
# Reading a written index

The fields of the header stand at fixed places, the group ends and the entries follow in pieces of
one size each. So reading the file of some rows gives back the order, the creation time and the
groups of the rows, if the name of the order fits its room and the rows can be counted in four
bytes. An index of records has lost the versions.
-/

namespace CardSearch.SortIndex

open Bytes

private theorem zero_eq_ofNat_iff {n : Nat} : (0 : UInt8) = UInt8.ofNat n ↔ n % 256 = 0 := by
  rw [eq_comm, UInt8.ofNat_eq_iff_mod_eq_toNat]
  rfl

private theorem zero_not_mem_utf8EncodeChar {c : Char} (h : c ≠ '\x00') :
    (0 : UInt8) ∉ String.utf8EncodeChar c := by
  have hval : c.val.toNat ≠ 0 := fun hzero => h (Char.ext (UInt32.toNat_inj.1 hzero))
  intro hmem
  unfold String.utf8EncodeChar at hmem
  dsimp only at hmem
  split at hmem
  · simp only [List.mem_singleton, zero_eq_ofNat_iff] at hmem
    omega
  · split at hmem
    · simp only [List.mem_cons, zero_eq_ofNat_iff, List.not_mem_nil, or_false] at hmem
      omega
    · split at hmem
      all_goals
        simp only [List.mem_cons, zero_eq_ofNat_iff, List.not_mem_nil, or_false] at hmem
        omega

theorem zero_not_mem_ofText {s : String} (h : '\x00' ∉ s.toList) : (0 : UInt8) ∉ ofText s := by
  intro hmem
  rw [ofText, String.toUTF8_eq_toByteArray, ← String.utf8Encode_toList, List.utf8Encode,
    List.toList_data_toByteArray] at hmem
  obtain ⟨c, hc, hzero⟩ := List.mem_flatMap.1 hmem
  exact zero_not_mem_utf8EncodeChar (fun heq => h (heq ▸ hc)) hzero

/-- The name of an order stands in its room up to the padding. -/
theorem takeWhile_keyBytes {order : String} (hlength : order.utf8ByteSize ≤ keyLength)
    (hzero : '\x00' ∉ order.toList) : (keyBytes order).takeWhile (· ≠ 0) = ofText order := by
  have htake : (ofText order).take keyLength = ofText order :=
    List.take_of_length_le (by rwa [length_ofText])
  have hall : ∀ b ∈ ofText order, decide (b ≠ 0) = true := by
    intro b hb
    have : b ≠ 0 := fun heq => zero_not_mem_ofText hzero (heq ▸ hb)
    simpa using this
  rw [keyBytes, htake, List.takeWhile_append_of_pos hall, List.takeWhile_replicate]
  simp

theorem length_keyBytes (order : String) : (keyBytes order).length = keyLength := by
  simp only [keyBytes, List.length_append, List.length_take, List.length_replicate]
  omega

def Stands (part bytes : List UInt8) (offset : Nat) : Prop :=
  ∃ before after, before.length = offset ∧ bytes = before ++ (part ++ after)

variable {bytes part : List UInt8} {offset : Nat}

theorem Stands.start (part after : List UInt8) : Stands part (part ++ after) 0 :=
  ⟨[], after, rfl, rfl⟩

theorem Stands.behind (h : Stands part bytes offset) {front : List UInt8} {n : Nat}
    (hn : front.length = n) : Stands part (front ++ bytes) (n + offset) := by
  obtain ⟨before, after, rfl, rfl⟩ := h
  exact ⟨front ++ before, after, by rw [List.length_append, hn], (List.append_assoc ..).symm⟩

theorem Stands.drop_take (h : Stands part bytes offset) {size : Nat} (hsize : part.length = size) :
    (bytes.drop offset).take size = part := by
  obtain ⟨before, after, rfl, rfl⟩ := h
  rw [List.drop_left, List.take_left' hsize]

theorem Stands.field_eq {n value : Nat} (h : Stands (littleEndian n value) bytes offset)
    (hvalue : value < 256 ^ n) : field bytes offset n = value := by
  rw [field, h.drop_take (length_littleEndian n value), ofLittleEndian_littleEndian, Nat.pow_eq,
    Nat.mod_eq_of_lt hvalue]

/-- Pieces of one size come apart again. -/
theorem pieces_flatMap {α : Type} {f : α → List UInt8} {size : Nat}
    (hsize : ∀ x, (f x).length = size) (xs : List α) (after : List UInt8) :
    pieces size xs.length (xs.flatMap f ++ after) = xs.map f := by
  induction xs with
  | nil => rfl
  | cons x xs ih =>
    rw [List.length_cons, pieces, List.flatMap_cons, List.append_assoc, List.take_left' (hsize x),
      List.drop_left' (hsize x), ih, List.map_cons]

theorem length_groupEnds (done : Nat) (sizes : List Nat) :
    (groupEnds done sizes).length = sizes.length := by
  induction sizes generalizing done with
  | nil => rfl
  | cons size sizes ih => simp [groupEnds, ih]

theorem checkEnds_groupEnds (offset done : Nat) (sizes : List Nat) :
    checkEnds offset done (groupEnds done sizes) = .ok () := by
  induction sizes generalizing offset done with
  | nil => rfl
  | cons size sizes ih => rw [groupEnds, checkEnds, if_neg (by omega), ih]

theorem le_of_mem_groupEnds {done ending : Nat} {sizes : List Nat}
    (h : ending ∈ groupEnds done sizes) : ending ≤ done + sizes.sum := by
  induction sizes generalizing done with
  | nil => simp [groupEnds] at h
  | cons size sizes ih =>
    rw [groupEnds, List.mem_cons] at h
    rw [List.sum_cons]
    rcases h with rfl | h
    · omega
    · have := ih h
      omega

theorem getLast?_groupEnds (done : Nat) (sizes : List Nat) :
    (groupEnds done sizes).getLast?.getD done = done + sizes.sum := by
  induction sizes generalizing done with
  | nil => simp [groupEnds]
  | cons size sizes ih =>
    have htail := ih (done + size)
    rw [groupEnds, List.getLast?_cons, Option.getD_some, htail, List.sum_cons, Nat.add_assoc]

theorem cutAt_groupEnds {α : Type} (done : Nat) (groups : List (List α)) :
    cutAt done (groupEnds done (groups.map List.length)) groups.flatten = groups := by
  induction groups generalizing done with
  | nil => rfl
  | cons group groups ih =>
    have hsize : done + group.length - done = group.length := by omega
    rw [List.map_cons, groupEnds, cutAt, List.flatten_cons, hsize, List.take_left, List.drop_left, ih]

def keptEntry (kind : SortKind) (row : SortRow) : SortEntry :=
  match kind with
  | .byRecord => ⟨row.entry.record, 0⟩
  | .byVersion => row.entry

theorem length_entryBytes (kind : SortKind) (e : SortEntry) :
    (entryBytes kind e).length = kind.entrySize := by
  cases kind <;> simp [entryBytes, SortKind.entrySize]

theorem entryOf_entryBytes (kind : SortKind) (row : SortRow) :
    entryOf kind (entryBytes kind row.entry) = keptEntry kind row := by
  have hlt (n : UInt16) : n.toNat < 256 ^ 2 := n.toNat_lt
  obtain ⟨key, ⟨record, version⟩⟩ := row
  cases kind with
  | byRecord =>
    have hrecord := (Stands.start (littleEndian 2 record.toNat) []).field_eq (hlt record)
    rw [List.append_nil] at hrecord
    simp [entryOf, entryBytes, keptEntry, hrecord]
  | byVersion =>
    have hrecord := (Stands.start (littleEndian 2 record.toNat)
      (littleEndian 2 version.toNat)).field_eq (hlt record)
    have hversion := ((Stands.start (littleEndian 2 version.toNat) []).behind
      (length_littleEndian 2 record.toNat)).field_eq (hlt version)
    rw [List.append_nil] at hversion
    simp [entryOf, entryBytes, keptEntry, hrecord, hversion]

variable {order : String} {kind : SortKind} {creationTime : UInt64} {groups : Nat}

theorem length_headerBytes :
    (headerBytes order kind creationTime groups).length = tableOffset := by
  simp [headerBytes, length_keyBytes, magic, keyLength, tableOffset]

structure Header (order : String) (kind : SortKind) (creationTime : UInt64) (groups : Nat)
    (bytes : List UInt8) : Prop where
  magic : Stands magic bytes 0
  version : Stands (littleEndian 2 formatVersion) bytes 4
  kind : Stands [kind.code] bytes 6
  creationTime : Stands (littleEndian 8 creationTime.toNat) bytes 8
  order : Stands (keyBytes order) bytes keyOffset
  count : Stands (littleEndian 4 groups) bytes 32

theorem header_append (body : List UInt8) : Header order kind creationTime groups
    (headerBytes order kind creationTime groups ++ body) := by
  have hmagic : magic.length = 4 := rfl
  have hversion := length_littleEndian 2 formatVersion
  have hkind : [kind.code].length = 1 := rfl
  have hzero : [(0 : UInt8)].length = 1 := rfl
  have htime := length_littleEndian 8 creationTime.toNat
  have horder := length_keyBytes order
  have hfields : headerBytes order kind creationTime groups ++ body = magic ++
      (littleEndian 2 formatVersion ++ ([kind.code] ++ ([0] ++ (littleEndian 8 creationTime.toNat ++
        (keyBytes order ++ (littleEndian 4 groups ++ body)))))) := by
    simp [headerBytes]
  rw [hfields]
  exact {
    magic := .start _ _
    version := (Stands.start _ _).behind hmagic
    kind := ((Stands.start _ _).behind hversion).behind hmagic
    creationTime := ((((Stands.start _ _).behind hzero).behind hkind).behind hversion).behind hmagic
    order := (((((Stands.start _ _).behind htime).behind hzero).behind hkind).behind hversion).behind
      hmagic
    count := ((((((Stands.start _ _).behind horder).behind htime).behind hzero).behind hkind).behind
      hversion).behind hmagic }

theorem ofCode?_code (kind : SortKind) : SortKind.ofCode? kind.code = some kind := by
  cases kind <;> rfl

def readGroups (order : String) (kind : SortKind) (creationTime : UInt64) (groups : Nat)
    (bytes : List UInt8) : Except IndexError SortIndex :=
  if bytes.length < tableOffset + 4 * groups then
    .error (.truncated tableOffset (4 * groups) bytes.length)
  else
    let ends := (pieces 4 groups (bytes.drop tableOffset)).map ofLittleEndian
    match checkEnds tableOffset 0 ends with
    | .error e => .error e
    | .ok () =>
      let entryCount := ends.getLast?.getD 0
      if bytes.length < tableOffset + 4 * groups + entryCount * kind.entrySize then
        .error (.truncated (tableOffset + 4 * groups) (entryCount * kind.entrySize) bytes.length)
      else
        let entries := (pieces kind.entrySize entryCount
          (bytes.drop (tableOffset + 4 * groups))).map (entryOf kind)
        .ok { kind, order, creationTime, groups := cutAt 0 ends entries }

/-- A header whose order fits its room is read back. -/
theorem Header.read_eq (h : Header order kind creationTime groups bytes)
    (hlength : order.utf8ByteSize ≤ keyLength) (hzero : '\x00' ∉ order.toList)
    (hgroups : groups < 256 ^ 4) (hbytes : tableOffset ≤ bytes.length) :
    read bytes = readGroups order kind creationTime groups bytes := by
  have hmagic : bytes.take 4 = SortIndex.magic := h.magic.drop_take rfl
  have hversion : field bytes 4 2 = formatVersion := h.version.field_eq (by decide)
  have hkind : UInt8.ofNat (field bytes 6 1) = kind.code := by
    have hone : [kind.code].length = 1 := rfl
    rw [field, h.kind.drop_take hone]
    cases kind <;> rfl
  have htime : field bytes 8 8 = creationTime.toNat := h.creationTime.field_eq creationTime.toNat_lt
  have horder : text? (((bytes.drop keyOffset).take keyLength).takeWhile (· ≠ 0)) = some order := by
    rw [h.order.drop_take (length_keyBytes order), takeWhile_keyBytes hlength hzero, text?_ofText]
  have hcount : field bytes 32 4 = groups := h.count.field_eq hgroups
  unfold read
  simp only [hmagic, hversion, hkind, htime, horder, hcount, ofCode?_code, UInt64.ofNat_toNat]
  rw [if_neg (by omega), if_neg (by simp), if_neg (by simp)]
  rfl

variable {sizes : List Nat}

def tableBytes (sizes : List Nat) : List UInt8 := (groupEnds 0 sizes).flatMap (littleEndian 4)

theorem length_tableBytes (sizes : List Nat) : (tableBytes sizes).length = 4 * sizes.length := by
  simp [tableBytes, List.length_flatMap, length_groupEnds, Nat.mul_comm]

theorem pieces_tableBytes (hsum : sizes.sum < 256 ^ 4) (after : List UInt8) :
    (pieces 4 sizes.length (tableBytes sizes ++ after)).map ofLittleEndian = groupEnds 0 sizes := by
  have hpieces := pieces_flatMap (length_littleEndian 4) (groupEnds 0 sizes) after
  rw [length_groupEnds] at hpieces
  rw [tableBytes, hpieces, List.map_map]
  have hback : ∀ ending ∈ groupEnds 0 sizes,
      (ofLittleEndian ∘ littleEndian 4) ending = id ending := by
    intro ending hending
    have hle := le_of_mem_groupEnds hending
    rw [Function.comp_apply, ofLittleEndian_littleEndian, Nat.pow_eq,
      Nat.mod_eq_of_lt (by omega), id]
  rw [List.map_congr_left hback, List.map_id]

theorem length_append_table (entries : List UInt8) :
    (headerBytes order kind creationTime groups ++ (tableBytes sizes ++ entries)).length =
      tableOffset + 4 * sizes.length + entries.length := by
  rw [List.length_append, List.length_append, length_headerBytes, length_tableBytes, Nat.add_assoc]

/-- Behind a header and a whole table of group ends, all depends on whether there are bytes enough
for the entries. -/
theorem read_append_table (hlength : order.utf8ByteSize ≤ keyLength)
    (hzero : '\x00' ∉ order.toList) (hsizes : sizes.length < 256 ^ 4) (hsum : sizes.sum < 256 ^ 4)
    (entries : List UInt8) :
    read (headerBytes order kind creationTime sizes.length ++ (tableBytes sizes ++ entries)) =
      if entries.length < sizes.sum * kind.entrySize then
        .error (.truncated (tableOffset + 4 * sizes.length) (sizes.sum * kind.entrySize)
          (tableOffset + 4 * sizes.length + entries.length))
      else
        .ok {
          kind, order, creationTime
          groups := cutAt 0 (groupEnds 0 sizes)
            ((pieces kind.entrySize sizes.sum entries).map (entryOf kind)) } := by
  have hbytes : (headerBytes order kind creationTime sizes.length ++
      (tableBytes sizes ++ entries)).length = tableOffset + 4 * sizes.length + entries.length :=
    length_append_table entries
  have htable : (headerBytes order kind creationTime sizes.length ++
      (tableBytes sizes ++ entries)).drop tableOffset = tableBytes sizes ++ entries :=
    List.drop_left' length_headerBytes
  have hentries : (headerBytes order kind creationTime sizes.length ++
      (tableBytes sizes ++ entries)).drop (tableOffset + 4 * sizes.length) = entries := by
    rw [← List.drop_drop, htable, List.drop_left' (length_tableBytes sizes)]
  have hlast : (groupEnds 0 sizes).getLast?.getD 0 = sizes.sum := by
    rw [getLast?_groupEnds, Nat.zero_add]
  rw [(header_append _).read_eq hlength hzero hsizes (by omega), readGroups, hbytes,
    if_neg (by omega), htable, hentries]
  simp only [pieces_tableBytes hsum, checkEnds_groupEnds, hlast, Nat.add_lt_add_iff_left]

variable {rows : List SortRow}

def groupSizes (rows : List SortRow) : List Nat := (groupRows rows).map List.length

def entriesBytes (kind : SortKind) (rows : List SortRow) : List UInt8 :=
  (groupRows rows).flatten.flatMap fun row => entryBytes kind row.entry

theorem sum_groupSizes (rows : List SortRow) : (groupSizes rows).sum = rows.length := by
  rw [groupSizes, ← List.length_flatten, groupRows, List.flatten_splitBy, List.length_mergeSort]

theorem length_groupSizes_le (rows : List SortRow) : (groupSizes rows).length ≤ rows.length := by
  rw [groupSizes, groupRows_eq, List.length_map, List.length_map]
  calc (ascendingKeys rows).length ≤ ((sortedRows rows).map (·.key)).length :=
        (List.dedup_sublist _).length_le
    _ = rows.length := by rw [List.length_map, sortedRows, List.length_mergeSort]

theorem length_entriesBytes (kind : SortKind) (rows : List SortRow) :
    (entriesBytes kind rows).length = rows.length * kind.entrySize := by
  have hsize : (fun row : SortRow => (entryBytes kind row.entry).length) =
      fun _ => kind.entrySize := funext fun row => length_entryBytes kind row.entry
  rw [entriesBytes, List.length_flatMap, hsize, List.map_const', List.sum_replicate,
    List.length_flatten, ← groupSizes, sum_groupSizes, Nat.nsmul_eq_mul]

theorem write_eq : write order kind creationTime rows =
    headerBytes order kind creationTime (groupSizes rows).length ++
      (tableBytes (groupSizes rows) ++ entriesBytes kind rows) := by
  simp [write, tableBytes, entriesBytes, groupSizes]

theorem pieces_entriesBytes (kind : SortKind) (rows : List SortRow) :
    (pieces kind.entrySize rows.length (entriesBytes kind rows)).map (entryOf kind) =
      ((groupRows rows).map (List.map (keptEntry kind))).flatten := by
  have hlength : (groupRows rows).flatten.length = rows.length := by
    rw [List.length_flatten, ← groupSizes, sum_groupSizes]
  have hpieces := pieces_flatMap (fun row : SortRow => length_entryBytes kind row.entry)
    (groupRows rows).flatten []
  rw [List.append_nil, hlength] at hpieces
  rw [entriesBytes, hpieces, List.map_map, ← List.map_flatten]
  exact List.map_congr_left fun row _ => entryOf_entryBytes kind row

def written (order : String) (kind : SortKind) (creationTime : UInt64) (rows : List SortRow) :
    SortIndex where
  kind := kind
  creationTime := creationTime
  order := order
  groups := (groupRows rows).map (List.map (keptEntry kind))

/-- Reading the file of some rows gives their index, if the name of the order fits its room and
the rows can be counted. -/
theorem read_write (hlength : order.utf8ByteSize ≤ keyLength) (hzero : '\x00' ∉ order.toList)
    (hrows : rows.length < 2 ^ 32) :
    read (write order kind creationTime rows) = .ok (written order kind creationTime rows) := by
  have hsizes : (groupSizes rows).length < 256 ^ 4 :=
    lt_of_le_of_lt (length_groupSizes_le rows) hrows
  have hsum : (groupSizes rows).sum < 256 ^ 4 := (sum_groupSizes rows).trans_lt hrows
  have hcut : cutAt 0 (groupEnds 0 (groupSizes rows))
      ((groupRows rows).map (List.map (keptEntry kind))).flatten =
        (groupRows rows).map (List.map (keptEntry kind)) := by
    have hcut := cutAt_groupEnds 0 ((groupRows rows).map (List.map (keptEntry kind)))
    have hlengths : List.length ∘ List.map (keptEntry kind) = List.length :=
      funext fun group => List.length_map _
    rwa [List.map_map, hlengths] at hcut
  rw [write_eq, read_append_table hlength hzero hsizes hsum, length_entriesBytes, sum_groupSizes,
    if_neg (by omega), pieces_entriesBytes, hcut]
  rfl

end CardSearch.SortIndex
