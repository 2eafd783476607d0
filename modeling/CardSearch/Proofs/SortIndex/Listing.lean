import CardSearch.Sorter

/-!
# What a sorter lists

Whatever the file of an index holds, sorting lists matching records only. It lists none of them twice
if the index has no entry twice.
-/

namespace CardSearch

/-- No entry stands in an index twice: in an index of records no record, in an index of versions no
version of a record. -/
def SortIndex.Distinct (index : SortIndex) : Prop :=
  match index.kind with
  | .byRecord => (index.entries.map (·.record)).Nodup
  | .byVersion => index.entries.Nodup

/-- The order of the catalog lists no record twice. -/
def Sorter.Distinct : Sorter → Prop
  | name => True
  | index i => i.Distinct

namespace SortIndex

variable {index : SortIndex} {version? : Nat → Option Nat} {length : Nat} {ascending : Bool}

theorem groupsInDirection_perm (index : SortIndex) (ascending : Bool) :
    (index.groupsInDirection ascending).flatten.Perm index.entries := by
  cases ascending with
  | true => exact .refl _
  | false => exact (List.reverse_perm index.groups).flatten

theorem isSome_of_selects {e : SortEntry} (h : index.selects version? length e = true) :
    e.record.toNat < length ∧ (version? e.record.toNat).isSome := by
  obtain ⟨hlt, hmatch⟩ := Bool.and_eq_true_iff.1 h
  refine ⟨of_decide_eq_true hlt, ?_⟩
  cases hkind : index.kind with
  | byRecord => simpa [hkind] using hmatch
  | byVersion =>
    have hversion : version? e.record.toNat = some e.version.toNat := by simpa [hkind] using hmatch
    rw [hversion]
    rfl

private theorem nodup_sort (h : index.Distinct) : (index.sort version? length ascending).Nodup := by
  have hperm := index.groupsInDirection_perm ascending
  unfold Distinct at h
  rw [sort, List.Nodup, List.pairwise_map]
  cases hkind : index.kind with
  | byRecord =>
    rw [hkind] at h
    have hne := (hperm.pairwise_iff fun hne => Ne.symm hne).2 (List.pairwise_map.1 h)
    exact (hne.sublist List.filter_sublist).imp fun hne heq => hne (UInt16.toNat_inj.1 heq)
  | byVersion =>
    rw [hkind] at h
    have hne := (hperm.nodup_iff.2 h).sublist
      (List.filter_sublist (p := index.selects version? length))
    refine hne.imp_of_mem fun {a b} ha hb hne heq => hne ?_
    -- both speak for the version that was chosen for their record
    have hversion {e : SortEntry} (he : e ∈ (index.groupsInDirection ascending).flatten.filter
        (index.selects version? length)) : version? e.record.toNat = some e.version.toNat := by
      have hselects := (Bool.and_eq_true_iff.1 (List.mem_filter.1 he).2).2
      simpa [hkind] using hselects
    have hsame := (hversion ha).symm.trans ((congrArg version? heq).trans (hversion hb))
    rw [SortEntry.mk.injEq]
    exact ⟨UInt16.toNat_inj.1 heq, UInt16.toNat_inj.1 (Option.some.inj hsame)⟩

end SortIndex

namespace Sorter

variable {x : Sorter} {version? : Nat → Option Nat} {length : Nat} {ascending : Bool}

theorem isSome_of_mem_sort {record : Nat} (h : record ∈ x.sort version? length ascending) :
    record < length ∧ (version? record).isSome := by
  cases x with
  | name =>
    obtain ⟨hmem, hmatch⟩ := List.mem_filter.1 h
    refine ⟨?_, hmatch⟩
    cases ascending <;> simpa using hmem
  | index i =>
    obtain ⟨e, he, rfl⟩ := List.mem_map.1 h
    exact SortIndex.isSome_of_selects (List.mem_filter.1 he).2

theorem nodup_sort (h : x.Distinct) : (x.sort version? length ascending).Nodup := by
  cases x with
  | name =>
    refine List.Nodup.sublist List.filter_sublist ?_
    cases ascending with
    | true => exact List.nodup_range
    | false => exact (List.reverse_perm _).nodup_iff.2 List.nodup_range
  | index i => exact SortIndex.nodup_sort h

end Sorter

end CardSearch
