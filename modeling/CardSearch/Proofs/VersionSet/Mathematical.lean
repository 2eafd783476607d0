import CardSearch.Proofs.VersionSet.Representation
import Mathlib.Data.Finset.Sort

/-!
# Version sets are mathematical sets

A finite set of numbers, together with a capacity, is itself a kind of version set, on which the
operations are those of mathematics. Every lawful kind of set has the members of such a set, and
any run over it answers and shows what the run over mathematical sets does.
-/

namespace CardSearch

/-- A finite set of numbers with a capacity. Which capacities there are and how many slots of an
arena they take is as for another kind of set. -/
structure MathSet (σ : Type) where
  capacity : Nat
  members : Finset Nat

namespace MathSet

variable {σ : Type} [VersionSet σ]

instance : VersionSet (MathSet σ) where
  largest := VersionSet.largest σ
  slotsFor := VersionSet.slotsFor σ
  empty capacity _ := ⟨capacity, ∅⟩
  capacity := capacity
  size S := S.members.card
  contains S v := decide (v ∈ S.members)
  add S v := { S with members := insert v S.members }
  remove S vs := { S with members := S.members \ vs.toFinset }
  clear S := { S with members := ∅ }
  fill S := { S with members := Finset.range S.capacity }
  invert S := { S with members := Finset.range S.capacity \ S.members }
  unite S T := { S with members := S.members ∪ T.members }
  subtract S T := { S with members := S.members \ T.members }
  toList S := S.members.sort

structure IsOf (s : σ) (S : MathSet σ) : Prop where
  capacity_eq : VersionSet.capacity s = S.capacity
  mem_iff (v : Nat) : v ∈ VersionSet.toList s ↔ v ∈ S.members

def layout (σ : Type) [VersionSet σ] : Layout σ Arena (MathSet σ) where
  region _ := ⟨0, 0⟩
  Holds _ := IsOf
  Changed _ arena next := next = arena

theorem isOf_members (s : σ) :
    IsOf s ⟨VersionSet.capacity s, (VersionSet.toList s).toFinset⟩ :=
  ⟨rfl, fun _ => List.mem_toFinset.symm⟩

theorem updates {arena : Arena} {s t : σ} {S : MathSet σ} (h : IsOf t S) :
    (layout σ).Updates arena s (t, arena) S := ⟨h, rfl, rfl⟩

theorem agrees {arena : Arena} {s : σ} {S : MathSet σ} (h : IsOf s S)
    (next : Except SetError Arena) :
    (layout σ).Agrees arena (next.map (s, ·)) (next.map (S, ·)) := by
  cases next with
  | error e => exact .error e
  | ok next => exact .ok ⟨rfl, h, fun h => ⟨.inl (Nat.le_refl _), h⟩⟩

variable [LawfulVersionSet σ]

namespace IsOf

open LawfulVersionSet

variable {s t : σ} {S T : MathSet σ}

theorem toList_eq (h : IsOf s S) : VersionSet.toList s = VersionSet.toList S := by
  have hsort : S.members.sort.Pairwise (· < ·) := S.members.sortedLT_sort.pairwise
  exact eq_of_mem_iff_of_ascending (ascending s) hsort fun v => (h.mem_iff v).trans (Finset.mem_sort _).symm

theorem size_eq (h : IsOf s S) : VersionSet.size s = VersionSet.size S := by
  rw [LawfulVersionSet.size_eq, h.toList_eq]
  exact Finset.length_sort _

theorem contains_eq (h : IsOf s S) (v : Nat) :
    VersionSet.contains s v = VersionSet.contains S v := by
  have hmem := (contains_iff s v).trans (h.mem_iff v)
  rw [Bool.eq_iff_iff, hmem]
  exact (decide_eq_true_iff).symm

theorem empty {n : Nat} (hn : n ≤ VersionSet.largest σ) :
    IsOf (VersionSet.empty n hn : σ) (VersionSet.empty n hn) where
  capacity_eq := capacity_empty hn
  mem_iff v := by simp [VersionSet.empty]

theorem add (h : IsOf s S) {v : Nat} (hv : v < S.capacity) :
    IsOf (VersionSet.add s v) (VersionSet.add S v) where
  capacity_eq := (capacity_add s v).trans h.capacity_eq
  mem_iff w := by
    rw [mem_add, h.mem_iff, h.capacity_eq]
    simp [VersionSet.add, hv, or_comm]

theorem remove (h : IsOf s S) {vs : List Nat} (hvs : vs.Pairwise (· < ·)) :
    IsOf (VersionSet.remove s vs) (VersionSet.remove S vs) where
  capacity_eq := (capacity_remove s vs).trans h.capacity_eq
  mem_iff w := by
    rw [mem_remove s hvs, h.mem_iff]
    simp [VersionSet.remove]

theorem clear (h : IsOf s S) : IsOf (VersionSet.clear s) (VersionSet.clear S) where
  capacity_eq := (capacity_clear s).trans h.capacity_eq
  mem_iff w := by simp [VersionSet.clear]

theorem fill (h : IsOf s S) : IsOf (VersionSet.fill s) (VersionSet.fill S) where
  capacity_eq := (capacity_fill s).trans h.capacity_eq
  mem_iff w := by simp [VersionSet.fill, h.capacity_eq]

theorem invert (h : IsOf s S) : IsOf (VersionSet.invert s) (VersionSet.invert S) where
  capacity_eq := (capacity_invert s).trans h.capacity_eq
  mem_iff w := by
    rw [mem_invert, h.mem_iff, h.capacity_eq]
    simp [VersionSet.invert]

private theorem unite (h : IsOf s S) (h' : IsOf t T) (hcap : S.capacity = T.capacity) :
    IsOf (VersionSet.unite s t) (VersionSet.unite S T) where
  capacity_eq := (capacity_unite s t).trans h.capacity_eq
  mem_iff w := by
    have hcap' := h.capacity_eq.trans (hcap.trans h'.capacity_eq.symm)
    rw [mem_unite hcap', h.mem_iff, h'.mem_iff]
    simp [VersionSet.unite]

private theorem subtract (h : IsOf s S) (h' : IsOf t T) (hcap : S.capacity = T.capacity) :
    IsOf (VersionSet.subtract s t) (VersionSet.subtract S T) where
  capacity_eq := (capacity_subtract s t).trans h.capacity_eq
  mem_iff w := by
    have hcap' := h.capacity_eq.trans (hcap.trans h'.capacity_eq.symm)
    rw [mem_subtract hcap', h.mem_iff, h'.mem_iff]
    simp [VersionSet.subtract]

private theorem retain (h : IsOf s S) {ε : Type} (keep : Nat → Except ε Bool) :
    IsOf (VersionSet.retain keep s).1 (VersionSet.retain keep S).1 := by
  rw [VersionSet.retain, VersionSet.retain, ← h.toList_eq]
  exact h.remove ((ascending s).sublist (rejected_sublist keep _))

end IsOf

theorem size_empty {n : Nat} (hn : n ≤ VersionSet.largest σ) :
    VersionSet.size (VersionSet.empty n hn : σ) = 0 := by
  rw [(IsOf.empty hn).size_eq]
  rfl

theorem size_add (s : σ) {v : Nat} (h : v < VersionSet.capacity s) :
    VersionSet.size (VersionSet.add s v) =
      if VersionSet.contains s v then VersionSet.size s else VersionSet.size s + 1 := by
  have hs := isOf_members s
  rw [(hs.add h).size_eq, hs.size_eq, hs.contains_eq]
  simp [VersionSet.size, VersionSet.add, VersionSet.contains, Finset.card_insert_eq_ite]

theorem size_remove (s : σ) (v : Nat) :
    VersionSet.size (VersionSet.remove s [v]) =
      if VersionSet.contains s v then VersionSet.size s - 1 else VersionSet.size s := by
  have hs := isOf_members s
  rw [(hs.remove (List.pairwise_singleton _ v)).size_eq, hs.size_eq, hs.contains_eq]
  simp [VersionSet.size, VersionSet.remove, VersionSet.contains, Finset.sdiff_singleton_eq_erase,
    Finset.card_erase_eq_ite]

theorem size_clear (s : σ) : VersionSet.size (VersionSet.clear s) = 0 := by
  rw [(isOf_members s).clear.size_eq]
  rfl

theorem size_fill (s : σ) : VersionSet.size (VersionSet.fill s) = VersionSet.capacity s := by
  rw [(isOf_members s).fill.size_eq]
  exact Finset.card_range _

theorem size_invert (s : σ) :
    VersionSet.size (VersionSet.invert s) = VersionSet.capacity s - VersionSet.size s := by
  have hs := isOf_members s
  have hsub : (VersionSet.toList s).toFinset ⊆ Finset.range (VersionSet.capacity s) := fun v hv =>
    Finset.mem_range.2 (LawfulVersionSet.lt_capacity s (List.mem_toFinset.1 hv))
  rw [hs.invert.size_eq, hs.size_eq]
  exact (Finset.card_sdiff_of_subset hsub).trans (by rw [Finset.card_range]; rfl)

theorem size_removeAll (s : σ) {vs : List Nat} (h : vs.Pairwise (· < ·))
    (hsub : ∀ v ∈ vs, v ∈ VersionSet.toList s) :
    VersionSet.size (VersionSet.remove s vs) = VersionSet.size s - vs.length := by
  have hs := isOf_members s
  rw [(hs.remove h).size_eq, hs.size_eq, ← List.toFinset_card_of_nodup (h.imp Nat.ne_of_lt)]
  refine Finset.card_sdiff_of_subset fun v hv => ?_
  rw [List.mem_toFinset] at *
  exact hsub v hv

/-- The operations on a lawful kind of set are those on mathematical sets. -/
theorem lawful_layout : (layout σ).Lawful where
  capacity_eq h := h.capacity_eq
  size_eq h := h.size_eq
  contains_eq h v := h.contains_eq v
  first_eq h := congrArg List.head? h.toList_eq
  toList_eq h := h.toList_eq
  arena_eq h := h
  holds_of_changed _ _ h := h
  create {arena} _ n := by
    change Layout.Agrees _ _ (VersionSet.create arena n) (VersionSet.create arena n)
    by_cases hn : n ≤ VersionSet.largest σ
    · have hn' : n ≤ VersionSet.largest (MathSet σ) := hn
      rw [VersionSet.create_eq n arena hn, VersionSet.create_eq n arena hn']
      exact agrees (.empty hn) _
    · have hn' : ¬ n ≤ VersionSet.largest (MathSet σ) := hn
      rw [VersionSet.create_eq_error n arena hn, VersionSet.create_eq_error n arena hn']
      exact .error _
  copy {arena s S} _ h := by
    change Layout.Agrees _ _ (VersionSet.copy arena s) (VersionSet.copy arena S)
    rw [VersionSet.copy_eq, VersionSet.copy_eq, h.capacity_eq]
    exact agrees h _
  add h hv := updates (h.add hv)
  push h hv _ := updates (h.add hv)
  remove h _ := updates (h.remove (List.pairwise_singleton _ _))
  clear h := updates h.clear
  fill h := updates h.fill
  invert h := updates h.invert
  unite h h' _ hcap := updates (h.unite h' hcap)
  subtract h h' _ hcap := updates (h.subtract h' hcap)
  copyOnto h _ _ _ := updates h
  retain {arena s S ε} keep h :=
    ⟨updates (h.retain keep), congrArg (fun vs => (rejected keep vs).2) h.toList_eq⟩

end MathSet

end CardSearch
