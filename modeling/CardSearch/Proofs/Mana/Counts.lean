import CardSearch.Proofs.Mana.Masks
import Mathlib.Data.Finset.Card

/-!
# The counts of a mana cost by key

A cost is given by how often it counts each key. The keys that it counts make up a finite set, which
has one member for each of its symbols. Adding a symbol changes the count of its key alone.
-/

namespace CardSearch.ManaCost

def support (cost : ManaCost) : Finset String := (cost.counts.map (·.1)).toFinset

/-- How often the symbol of a key occurs, zero times if it does not. -/
def count (cost : ManaCost) (key : String) : UInt32 := (cost.count? key).getD 0

variable {cost a b : ManaCost} {key : String} {n : UInt32}

theorem count?_eq_some_iff : cost.count? key = some n ↔ (key, n) ∈ cost.counts := by
  rw [count?, Option.map_eq_some_iff]
  constructor
  · rintro ⟨e, he, rfl⟩
    have hkey : e.1 = key := by simpa using List.find?_some he
    exact hkey ▸ List.mem_of_find?_eq_some he
  · intro h
    have hsome : (cost.counts.find? (·.1 == key)).isSome = true :=
      List.find?_isSome.2 ⟨_, h, by simp⟩
    obtain ⟨e, he⟩ := Option.isSome_iff_exists.1 hsome
    have hkey : e.1 = key := by simpa using List.find?_some he
    -- no other entry has the key
    have heq : e = (key, n) :=
      List.inj_on_of_nodup_map cost.nodup_keys (List.mem_of_find?_eq_some he) h hkey
    exact ⟨e, he, by rw [heq]⟩

theorem eq_of_count? (h : ∀ key, a.count? key = b.count? key) : a = b := by
  have hmem : ∀ e, e ∈ a.counts ↔ e ∈ b.counts := fun e => by
    rw [← count?_eq_some_iff, h, count?_eq_some_iff]
  have hperm : a.counts.Perm b.counts :=
    (List.perm_ext_iff_of_nodup (.of_map _ a.nodup_keys) (.of_map _ b.nodup_keys)).2 hmem
  exact eq_iff_counts_eq.2 (hperm.eq_of_pairwise
    (fun e e' _ _ hlt hlt' => absurd hlt (String.lt_asymm hlt')) a.ascending b.ascending)

theorem mem_support : key ∈ cost.support ↔ ∃ n, cost.count? key = some n := by
  simp only [support, List.mem_toFinset, List.mem_map, count?_eq_some_iff]
  exact ⟨fun ⟨e, he, hkey⟩ => ⟨e.2, hkey ▸ he⟩, fun ⟨n, hn⟩ => ⟨(key, n), hn, rfl⟩⟩

theorem not_mem_support : key ∉ cost.support ↔ cost.count? key = none := by
  rw [mem_support, ← Option.isSome_iff_exists, Bool.not_eq_true, Option.isSome_eq_false_iff,
    Option.isNone_iff_eq_none]

theorem contains_iff : cost.contains key = true ↔ key ∈ cost.support := by
  rw [contains, Option.isSome_iff_exists, mem_support]

theorem card_support (cost : ManaCost) : cost.support.card = cost.symbolCount := by
  rw [support, List.toFinset_card_of_nodup cost.nodup_keys, List.length_map, symbolCount]

theorem count_of_mem (h : key ∈ cost.support) : cost.count? key = some (cost.count key) := by
  obtain ⟨n, hn⟩ := mem_support.1 h
  rw [count, hn, Option.getD_some]

theorem count_of_not_mem (h : key ∉ cost.support) : cost.count key = 0 := by
  rw [count, not_mem_support.1 h, Option.getD_none]

theorem eq_of_support_eq (hsupport : b.support = a.support)
    (h : ∀ key ∈ b.support, a.count key = b.count key) : a = b := by
  refine eq_of_count? fun key => ?_
  by_cases hkey : key ∈ b.support
  · rw [count_of_mem hkey, count_of_mem (hsupport ▸ hkey), h key hkey]
  · rw [not_mem_support.1 hkey, not_mem_support.1 (hsupport ▸ hkey)]

theorem addCapped_zero (n : UInt32) : addCapped 0 n = n := by
  rw [addCapped, UInt32.toNat_zero, Nat.zero_add, if_pos n.toNat_lt, UInt32.zero_add]

private theorem map_find?_cons (e : String × UInt32) (es : List (String × UInt32)) (key : String) :
    ((e :: es).find? (·.1 == key)).map (·.2) =
      if key = e.1 then some e.2 else (es.find? (·.1 == key)).map (·.2) := by
  by_cases h : key = e.1
  · simp [h]
  · simp [h, Ne.symm h]

private theorem map_find?_addTo {es : List (String × UInt32)} (h : es.Pairwise (·.1 < ·.1))
    (key key' : String) (n : UInt32) : ((addTo key n es).find? (·.1 == key')).map (·.2) =
      if key' = key then some (addCapped (((es.find? (·.1 == key)).map (·.2)).getD 0) n)
      else (es.find? (·.1 == key')).map (·.2) := by
  induction es with
  | nil =>
    rw [addTo, map_find?_cons]
    split <;> simp [addCapped_zero]
  | cons e es ih =>
    obtain ⟨hhead, htail⟩ := List.pairwise_cons.1 h
    rw [addTo]
    split
    case isTrue hlt =>
      -- the key comes before all that are counted, so it is not among them
      have hnone : (e :: es).find? (·.1 == key) = none := List.find?_eq_none.2 fun d hd => by
        have hkey : key < d.1 := by
          rcases List.mem_cons.1 hd with rfl | hd
          · exact hlt
          · exact String.lt_trans hlt (hhead d hd)
        rw [beq_iff_eq]
        rintro rfl
        exact String.lt_irrefl _ hkey
      rw [map_find?_cons, hnone, Option.map_none, Option.getD_none, addCapped_zero]
    case isFalse hlt =>
      split
      case isTrue heq =>
        subst heq
        rw [map_find?_cons, map_find?_cons, map_find?_cons, if_pos rfl, Option.getD_some]
        split <;> simp [*]
      case isFalse hne =>
        rw [map_find?_cons, ih htail, map_find?_cons, map_find?_cons, if_neg hne]
        split
        · next heq => rw [if_neg (heq ▸ Ne.symm hne)]
        · rfl

/-- Adding a symbol changes the count of its key alone. -/
theorem count?_add (cost : ManaCost) (key key' : String) (n : UInt32) :
    (cost.add key n).count? key' =
      if key' = key then some (addCapped (cost.count key) n) else cost.count? key' :=
  map_find?_addTo cost.ascending key key' n

theorem support_add (cost : ManaCost) (key : String) (n : UInt32) :
    (cost.add key n).support = insert key cost.support := by
  ext key'
  rw [Finset.mem_insert, mem_support, mem_support, count?_add]
  split
  · next heq => exact iff_of_true ⟨_, rfl⟩ (.inl heq)
  · next hne => exact (or_iff_right hne).symm

theorem symbolCount_add (h : key ∉ cost.support) (n : UInt32) :
    (cost.add key n).symbolCount = cost.symbolCount + 1 := by
  rw [← card_support, support_add, Finset.card_insert_of_notMem h, card_support]

theorem count_add (cost : ManaCost) (key key' : String) (n : UInt32) :
    (cost.add key n).count key' =
      if key' = key then addCapped (cost.count key) n else cost.count key' := by
  rw [count, count?_add]
  split <;> rfl

theorem count_add_self (h : key ∉ cost.support) (n : UInt32) : (cost.add key n).count key = n := by
  rw [count_add, if_pos rfl, count_of_not_mem h, addCapped_zero]

theorem count_add_of_ne {key' : String} (h : key' ≠ key) (n : UInt32) :
    (cost.add key n).count key' = cost.count key' := by
  rw [count_add, if_neg h]

theorem eq_empty_of_symbolCount (h : cost.symbolCount = 0) : cost = ∅ :=
  eq_iff_counts_eq.2 (List.length_eq_zero_iff.1 h)

def without (cost : ManaCost) (key : String) : ManaCost :=
  ⟨cost.counts.filter (·.1 != key), cost.ascending.filter _⟩

private theorem count?_without (cost : ManaCost) (key key' : String) :
    (cost.without key).count? key' = if key' = key then none else cost.count? key' := by
  ext n
  rw [count?_eq_some_iff, without, List.mem_filter, bne_iff_ne]
  split
  · next heq => exact iff_of_false (fun h => h.2 heq) nofun
  · next hne => rw [count?_eq_some_iff, and_iff_left hne]

theorem exists_add (h : cost.count? key = some n) :
    ∃ rest : ManaCost, key ∉ rest.support ∧ rest.add key n = cost := by
  have hnone : key ∉ (cost.without key).support := by
    rw [not_mem_support, count?_without, if_pos rfl]
  refine ⟨cost.without key, hnone, eq_of_count? fun key' => ?_⟩
  rw [count?_add, count_of_not_mem hnone, addCapped_zero, count?_without]
  split
  · next heq => rw [heq, h]
  · rfl

end CardSearch.ManaCost
