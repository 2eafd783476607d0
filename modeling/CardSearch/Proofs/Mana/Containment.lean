import CardSearch.Mana.Cost
import CardSearch.Proofs.Mana.Counts
import CardSearch.Proofs.Mana.RoundTrip
import Mathlib.Algebra.Order.BigOperators.Group.Finset

/-!
# Containment of mana costs

A cost includes another if it has as many symbols and counts each key at least as often. It exceeds
it if it also counts a symbol of the other more often, or has more symbols; a cost of zero generic
mana alone is exceeded by all that lack generic mana.

Counting does not tell a symbol that is counted zero times from one that is missing, so inclusion is
an order only where at most one key can be counted zero times. In the costs that texts have this is
the key of generic mana. The same key is why a cost can include another without exceeding it or being
equal to it.
-/

namespace CardSearch.ManaCost

variable {a b c : ManaCost}

theorem sameAs_iff : a.sameAs b = true ↔ a = b := by
  rw [sameAs, Bool.and_eq_true, beq_iff_eq, List.all_eq_true]
  constructor
  · rintro ⟨hcount, hall⟩
    have hsame : ∀ key ∈ b.support, a.count? key = some (b.count key) := fun key hkey =>
      beq_iff_eq.1 (hall _ (count?_eq_some_iff.1 (count_of_mem hkey)))
    have hsupport : b.support = a.support := by
      refine Finset.eq_of_subset_of_card_le (fun key hkey => mem_support.2 ⟨_, hsame key hkey⟩) ?_
      rw [card_support, card_support, hcount]
    refine eq_of_support_eq hsupport fun key hkey => ?_
    rw [count, hsame key hkey, Option.getD_some]
  · rintro rfl
    exact ⟨rfl, fun e he => by rw [count?_eq_some_iff.2 he, beq_self_eq_true]⟩

/-- A cost includes another if it has as many symbols and counts each key at least as often. -/
theorem includes_iff : a.includes b = true ↔
    b.symbolCount ≤ a.symbolCount ∧ ∀ key, b.count key ≤ a.count key := by
  rw [includes, Bool.and_eq_true, decide_eq_true_eq, List.all_eq_true]
  refine and_congr_right fun _ => ⟨fun h key => ?_, fun h e he => ?_⟩
  · by_cases hkey : key ∈ b.support
    · exact of_decide_eq_true (h _ (count?_eq_some_iff.1 (count_of_mem hkey)))
    · rw [count_of_not_mem hkey]
      exact UInt32.zero_le
  · have hcount : b.count e.1 = e.2 := by rw [count, count?_eq_some_iff.2 he, Option.getD_some]
    exact decide_eq_true (hcount ▸ h e.1)

private theorem totalOver_eq (a b : ManaCost) :
    a.totalOver b = ∑ key ∈ b.support, (a.count key).toNat := by
  rw [support, List.sum_toFinset _ b.nodup_keys, List.map_map, totalOver, List.sum_eq_foldl,
    List.foldl_map]
  rfl

/-- A cost that includes another has more mana of its symbols exactly if it counts one of them more
often. -/
theorem totalOver_lt_iff (h : a.includes b = true) :
    b.totalOver b < a.totalOver b ↔ ∃ key ∈ b.support, b.count key < a.count key := by
  have hle : ∀ key ∈ b.support, (b.count key).toNat ≤ (a.count key).toNat := fun key _ =>
    UInt32.le_iff_toNat_le.1 ((includes_iff.1 h).2 key)
  rw [totalOver_eq, totalOver_eq]
  constructor
  · intro hlt
    obtain ⟨key, hkey, hlt⟩ := Finset.exists_lt_of_sum_lt hlt
    exact ⟨key, hkey, UInt32.lt_iff_toNat_lt.2 hlt⟩
  · rintro ⟨key, hkey, hlt⟩
    exact Finset.sum_lt_sum hle ⟨key, hkey, UInt32.lt_iff_toNat_lt.1 hlt⟩

/-- The second cost is zero generic mana and nothing else, and the first one has no generic
mana. -/
def LacksZero (a b : ManaCost) : Prop :=
  b.count? ManaSymbol.generic.key = some 0 ∧ b.symbolCount = 1 ∧
    ManaSymbol.generic.key ∉ a.support

theorem exceeds_iff : a.exceeds b = true ↔ a.includes b = true ∧
    ((∃ key ∈ b.support, b.count key < a.count key) ∨ b.symbolCount < a.symbolCount ∨
      a.LacksZero b) := by
  rw [exceeds, Bool.and_eq_true, Bool.or_eq_true, decide_eq_true_eq, decide_eq_true_eq]
  refine and_congr_right fun h => or_congr (totalOver_lt_iff h) ?_
  have hle := (includes_iff.1 h).1
  simp only [symbolCountAgainst, contains_iff]
  split
  · next hzero => exact iff_of_true (Nat.lt_succ_of_le hle) (.inr hzero)
  · next hzero => exact (or_iff_left hzero).symm

theorem includes_refl (a : ManaCost) : a.includes a = true :=
  includes_iff.2 ⟨Nat.le_refl _, fun _ => UInt32.le_refl _⟩

theorem includes_trans (h : a.includes b = true) (h' : b.includes c = true) :
    a.includes c = true := by
  obtain ⟨hcount, hle⟩ := includes_iff.1 h
  obtain ⟨hcount', hle'⟩ := includes_iff.1 h'
  exact includes_iff.2 ⟨Nat.le_trans hcount' hcount, fun key => UInt32.le_trans (hle' key) (hle key)⟩

theorem includes_of_exceeds (h : a.exceeds b = true) : a.includes b = true := (exceeds_iff.1 h).1

private theorem not_exceeds_self (a : ManaCost) : ¬ a.exceeds a = true := by
  rw [exceeds_iff]
  rintro ⟨-, ⟨key, -, hlt⟩ | hlt | ⟨hzero, -, hnone⟩⟩
  · exact UInt32.lt_irrefl _ hlt
  · exact Nat.lt_irrefl _ hlt
  · exact hnone (mem_support.2 ⟨0, hzero⟩)

/-- Only generic mana is counted zero times, if anything is. -/
def OnlyGenericZero (cost : ManaCost) : Prop :=
  ∀ e ∈ cost.counts, e.2 = 0 → e.1 = ManaSymbol.generic.key

instance (cost : ManaCost) : Decidable cost.OnlyGenericZero :=
  inferInstanceAs (Decidable (∀ e ∈ cost.counts, e.2 = 0 → e.1 = ManaSymbol.generic.key))

/-- Where the larger of two costs lacks a symbol of the smaller one, that is zero generic mana. -/
theorem OnlyGenericZero.eq_generic (hb : b.OnlyGenericZero) (h : a.includes b = true)
    {key : String} (hkey : key ∈ b.support) (hnone : key ∉ a.support) :
    key = ManaSymbol.generic.key ∧ b.count? key = some 0 := by
  have hle := (includes_iff.1 h).2 key
  rw [count_of_not_mem hnone] at hle
  have hzero : b.count key = 0 := UInt32.le_zero_iff.1 hle
  have hcount := count_of_mem hkey
  rw [hzero] at hcount
  exact ⟨hb _ (count?_eq_some_iff.1 hcount) rfl, hcount⟩

/-- Of two costs with as many symbols the larger one has the symbols of the smaller one, or it lacks
zero generic mana. -/
theorem OnlyGenericZero.support_eq_or (hb : b.OnlyGenericZero) (h : a.includes b = true)
    (hcount : a.symbolCount = b.symbolCount) :
    b.support = a.support ∨
      b.count? ManaSymbol.generic.key = some 0 ∧ ManaSymbol.generic.key ∉ a.support := by
  by_cases hsub : b.support ⊆ a.support
  · refine .inl (Finset.eq_of_subset_of_card_le hsub ?_)
    rw [card_support, card_support, hcount]
  · obtain ⟨key, hkey, hnone⟩ := Finset.not_subset.1 hsub
    obtain ⟨rfl, hzero⟩ := hb.eq_generic h hkey hnone
    exact .inr ⟨hzero, hnone⟩

private theorem OnlyGenericZero.includes_antisymm (ha : a.OnlyGenericZero) (hb : b.OnlyGenericZero)
    (h : a.includes b = true) (h' : b.includes a = true) : a = b := by
  obtain ⟨hcount, hle⟩ := includes_iff.1 h
  obtain ⟨hcount', hle'⟩ := includes_iff.1 h'
  have hcounts : a.symbolCount = b.symbolCount := Nat.le_antisymm hcount' hcount
  have hsupport : b.support = a.support := by
    rcases hb.support_eq_or h hcounts with heq | ⟨hzero, hnone⟩
    · exact heq
    · rcases ha.support_eq_or h' hcounts.symm with heq | ⟨-, hnone'⟩
      · exact heq.symm
      · exact absurd (mem_support.2 ⟨0, hzero⟩) hnone'
  exact eq_of_support_eq hsupport fun key _ => UInt32.le_antisymm (hle' key) (hle key)

theorem OnlyGenericZero.exceeds_of_includes (hb : b.OnlyGenericZero) (h : a.includes b = true)
    (h' : b.exceeds c = true) : a.exceeds c = true := by
  obtain ⟨hincludes, hmore⟩ := exceeds_iff.1 h'
  obtain ⟨hcount, hle⟩ := includes_iff.1 h
  refine exceeds_iff.2 ⟨includes_trans h hincludes, ?_⟩
  rcases hmore with ⟨key, hkey, hlt⟩ | hlt | ⟨hzero, hone, hnone⟩
  · exact .inl ⟨key, hkey, UInt32.lt_of_lt_of_le hlt (hle key)⟩
  · exact .inr (.inl (Nat.lt_of_lt_of_le hlt hcount))
  · -- `c` is zero generic mana, which `a` does not have either unless it has more symbols than `c`
    refine .inr ?_
    have hcount' := (includes_iff.1 hincludes).1
    rcases Nat.lt_or_ge c.symbolCount a.symbolCount with hlt | hge
    · exact .inl hlt
    · rcases hb.support_eq_or h (by omega) with heq | ⟨hzero', -⟩
      · exact .inr ⟨hzero, hone, heq ▸ hnone⟩
      · exact absurd (mem_support.2 ⟨0, hzero'⟩) hnone

theorem Writable.onlyGenericZero (h : a.Writable) : a.OnlyGenericZero := fun e he => (h e he).2

/-- The costs that count nothing zero times but generic mana. -/
abbrev Sparing := {cost : ManaCost // cost.OnlyGenericZero}

instance isPartialOrder_includes : IsPartialOrder Sparing fun a b => a.1.includes b.1 = true where
  refl a := includes_refl a.1
  trans _ _ _ := includes_trans
  antisymm a b h h' := Subtype.ext (a.2.includes_antisymm b.2 h h')

instance isStrictOrder_exceeds : IsStrictOrder Sparing fun a b => a.1.exceeds b.1 = true where
  irrefl a := not_exceeds_self a.1
  trans _ b _ h h' := b.2.exceeds_of_includes (includes_of_exceeds h) h'

/-- On the costs that count nothing zero times but generic mana, as all costs of texts do, to include
is a partial order and to exceed is a strict order within it. Costs are the same only if they are
equal. -/
theorem containment_orders :
    IsPartialOrder Sparing (fun a b => a.1.includes b.1 = true) ∧
    IsStrictOrder Sparing (fun a b => a.1.exceeds b.1 = true) ∧
    (∀ a b : ManaCost, (a.sameAs b = true ↔ a = b) ∧
      (a.exceeds b = true → a.includes b = true)) ∧
    ∀ (s : String) (start : Nat), (readAt s start).1.OnlyGenericZero :=
  ⟨isPartialOrder_includes, isStrictOrder_exceeds, fun _ _ => ⟨sameAs_iff, includes_of_exceeds⟩,
    fun s start => (writable_readAt s start).onlyGenericZero⟩

/-- Two white mana exceed one, which exceeds zero generic mana, although that is counted by a key of
its own. -/
theorem containment_orders_white :
    let twoWhite : Sparing := ⟨ofList [("W", 2)], by decide⟩
    let white : Sparing := ⟨ofList [("W", 1)], by decide⟩
    let zero : Sparing := ⟨ofList [("N", 0)], by decide⟩
    twoWhite.1.exceeds white.1 = true ∧ white.1.exceeds zero.1 = true ∧
      twoWhite.1.exceeds zero.1 = true ∧ twoWhite.1.includes zero.1 = true := by
  intro twoWhite white zero
  have h : twoWhite.1.exceeds white.1 = true := by decide
  have h' : white.1.exceeds zero.1 = true := by decide
  obtain ⟨-, hstrict, hpairs, -⟩ := containment_orders
  have htrans : twoWhite.1.exceeds zero.1 = true := hstrict.trans _ _ _ h h'
  exact ⟨h, h', htrans, (hpairs _ _).2 htrans⟩

/-- Two costs have the same symbols equally often but for one: the first cost has another symbol
where the second one has zero generic mana. -/
def ReplacesZero (a b : ManaCost) : Prop :=
  ∃ (shared : ManaCost) (key : String) (n : UInt32), shared ≠ ∅ ∧
    ManaSymbol.generic.key ∉ shared.support ∧ key ∉ shared.support ∧
    key ≠ ManaSymbol.generic.key ∧
    a = shared.add key n ∧ b = shared.add ManaSymbol.generic.key 0

private theorem ReplacesZero.includes (h : a.ReplacesZero b) : a.includes b = true := by
  obtain ⟨shared, key, n, -, hgeneric, hkey, hne, rfl, rfl⟩ := h
  refine includes_iff.2 ⟨?_, fun key' => ?_⟩
  · rw [symbolCount_add hgeneric, symbolCount_add hkey]
  · by_cases h : key' = ManaSymbol.generic.key
    · rw [h, count_add_self hgeneric]
      exact UInt32.zero_le
    · rw [count_add_of_ne h]
      by_cases h : key' = key
      · rw [h, count_of_not_mem hkey]
        exact UInt32.zero_le
      · rw [count_add_of_ne h]
        exact UInt32.le_refl _

theorem ReplacesZero.not_exceeds (h : a.ReplacesZero b) : ¬ a.exceeds b = true := by
  obtain ⟨shared, key, n, hshared, hgeneric, hkey, hne, rfl, rfl⟩ := h
  rw [exceeds_iff, LacksZero, symbolCount_add hgeneric, symbolCount_add hkey]
  rintro ⟨-, ⟨key', hkey', hlt⟩ | hlt | ⟨-, hone, -⟩⟩
  · rw [support_add, Finset.mem_insert] at hkey'
    rcases hkey' with rfl | hkey'
    · rw [count_add_self hgeneric, count_add_of_ne (Ne.symm hne), count_of_not_mem hgeneric] at hlt
      exact UInt32.lt_irrefl _ hlt
    · rw [count_add_of_ne (ne_of_mem_of_not_mem hkey' hgeneric),
        count_add_of_ne (ne_of_mem_of_not_mem hkey' hkey)] at hlt
      exact UInt32.lt_irrefl _ hlt
  · exact Nat.lt_irrefl _ hlt
  · exact hshared (eq_empty_of_symbolCount (Nat.succ_injective hone))

theorem ReplacesZero.ne (h : a.ReplacesZero b) : a ≠ b := by
  obtain ⟨shared, key, n, -, hgeneric, -, hne, rfl, rfl⟩ := h
  intro heq
  have hmem : ManaSymbol.generic.key ∈ (shared.add key n).support := by
    rw [heq, support_add]
    exact Finset.mem_insert_self _ _
  rw [support_add, Finset.mem_insert] at hmem
  exact hmem.elim (Ne.symm hne) hgeneric

/-- A cost that lacks zero generic mana of one with as many symbols has one symbol besides those of
the other. -/
theorem OnlyGenericZero.exists_replacing (hb : b.OnlyGenericZero) (h : a.includes b = true)
    (hcount : a.symbolCount = b.symbolCount) (hzero : ManaSymbol.generic.key ∈ b.support)
    (hnone : ManaSymbol.generic.key ∉ a.support) :
    ∃ key, key ∉ b.support ∧ a.support = insert key (b.support.erase ManaSymbol.generic.key) := by
  have hshared : a.support ∩ b.support = b.support.erase ManaSymbol.generic.key := by
    ext key
    rw [Finset.mem_inter, Finset.mem_erase]
    constructor
    · rintro ⟨ha, hb⟩
      exact ⟨ne_of_mem_of_not_mem ha hnone, hb⟩
    · rintro ⟨hne, hkey⟩
      exact ⟨by_contra fun hkey' => hne (hb.eq_generic h hkey hkey').1, hkey⟩
  have hone : (a.support \ b.support).card = 1 := by
    have hcard := Finset.card_sdiff_add_card_inter a.support b.support
    have herase := Finset.card_erase_add_one hzero
    rw [hshared] at hcard
    rw [card_support] at hcard herase
    omega
  obtain ⟨key, hkey⟩ := Finset.card_eq_one.1 hone
  refine ⟨key, (Finset.mem_sdiff.1 (hkey ▸ Finset.mem_singleton_self key)).2, ?_⟩
  rw [← hshared, ← Finset.singleton_union, ← hkey, Finset.sdiff_union_inter]

private theorem OnlyGenericZero.replacesZero (hb : b.OnlyGenericZero) (h : a.includes b = true)
    (hcount : a.symbolCount = b.symbolCount)
    (hzero : b.count? ManaSymbol.generic.key = some 0) (hnone : ManaSymbol.generic.key ∉ a.support)
    (heq : ∀ key ∈ b.support, a.count key = b.count key) (hlacks : ¬ a.LacksZero b) :
    a.ReplacesZero b := by
  obtain ⟨key, hkey, hsupport⟩ := hb.exists_replacing h hcount (mem_support.2 ⟨0, hzero⟩) hnone
  obtain ⟨shared, hgeneric, rfl⟩ := exists_add hzero
  rw [support_add, Finset.mem_insert, not_or] at hkey
  rw [support_add, Finset.erase_insert hgeneric] at hsupport
  refine ⟨shared, key, a.count key, ?_, hgeneric, hkey.2, hkey.1, ?_, rfl⟩
  · rintro rfl
    exact hlacks ⟨hzero, symbolCount_add hgeneric 0, hnone⟩
  · refine eq_of_support_eq (by rw [support_add, hsupport]) fun key' hkey' => ?_
    by_cases hne : key' = key
    · rw [hne, count_add_self hkey.2]
    · rw [support_add, Finset.mem_insert, or_iff_right hne] at hkey'
      have hmem : key' ∈ (shared.add ManaSymbol.generic.key 0).support := by
        rw [support_add]
        exact Finset.mem_insert_of_mem hkey'
      rw [heq key' hmem, count_add_of_ne (ne_of_mem_of_not_mem hkey' hgeneric),
        count_add_of_ne hne]

/-- A cost that includes another exceeds it or is equal to it, unless it has another symbol where the
other has zero generic mana. -/
theorem OnlyGenericZero.includes_iff_or (hb : b.OnlyGenericZero) :
    a.includes b = true ↔ a.exceeds b = true ∨ a.sameAs b = true ∨ a.ReplacesZero b := by
  rw [sameAs_iff]
  constructor
  · intro h
    by_cases hmore : a.exceeds b = true
    · exact .inl hmore
    · refine .inr ?_
      rw [exceeds_iff, and_iff_right h, not_or, not_or] at hmore
      obtain ⟨hless, hfewer, hlacks⟩ := hmore
      have hcount : a.symbolCount = b.symbolCount :=
        Nat.le_antisymm (Nat.not_lt.1 hfewer) (includes_iff.1 h).1
      have heq : ∀ key ∈ b.support, a.count key = b.count key := fun key hkey =>
        UInt32.le_antisymm (UInt32.not_lt.1 fun hlt => hless ⟨key, hkey, hlt⟩)
          ((includes_iff.1 h).2 key)
      rcases hb.support_eq_or h hcount with hsupport | ⟨hzero, hnone⟩
      · exact .inl (eq_of_support_eq hsupport heq)
      · exact .inr (hb.replacesZero h hcount hzero hnone heq hlacks)
  · rintro (h | rfl | h)
    · exact includes_of_exceeds h
    · exact includes_refl a
    · exact h.includes

end CardSearch.ManaCost
