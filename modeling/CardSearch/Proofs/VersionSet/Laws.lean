import CardSearch.VersionSet.Basic
import Mathlib.Data.List.Sort
import Mathlib.Order.Bounds.Basic

/-!
# Laws of version sets

A version set stands for the ascending list of its members. The laws say what each operation does
to that list; whatever holds of every lawful kind of set holds however the set is held. The
checked operations succeed exactly when their check does, and then act as the laws say.
-/

namespace CardSearch

open VersionSet

/-- A kind of version set whose operations act on the members as those on mathematical sets do. -/
class LawfulVersionSet (σ : Type) [VersionSet σ] : Prop where
  ascending (s : σ) : (toList s).Pairwise (· < ·)
  lt_capacity (s : σ) {v : Nat} : v ∈ toList s → v < capacity s
  contains_iff (s : σ) (v : Nat) : contains s v = true ↔ v ∈ toList s
  size_eq (s : σ) : size s = (toList s).length
  capacity_empty {n : Nat} (h : n ≤ largest σ) : capacity (empty n h : σ) = n
  toList_empty {n : Nat} (h : n ≤ largest σ) : toList (empty n h : σ) = []
  capacity_add (s : σ) (w : Nat) : capacity (add s w) = capacity s
  mem_add (s : σ) (v w : Nat) : v ∈ toList (add s w) ↔ v ∈ toList s ∨ v = w ∧ w < capacity s
  capacity_remove (s : σ) (vs : List Nat) : capacity (remove s vs) = capacity s
  mem_remove (s : σ) {vs : List Nat} (h : vs.Pairwise (· < ·)) (v : Nat) :
    v ∈ toList (remove s vs) ↔ v ∈ toList s ∧ v ∉ vs
  capacity_clear (s : σ) : capacity (clear s) = capacity s
  toList_clear (s : σ) : toList (clear s) = []
  capacity_fill (s : σ) : capacity (fill s) = capacity s
  toList_fill (s : σ) : toList (fill s) = List.range (capacity s)
  capacity_invert (s : σ) : capacity (invert s) = capacity s
  mem_invert (s : σ) (v : Nat) : v ∈ toList (invert s) ↔ v < capacity s ∧ v ∉ toList s
  capacity_unite (s t : σ) : capacity (unite s t) = capacity s
  mem_unite {s t : σ} (h : capacity s = capacity t) (v : Nat) :
    v ∈ toList (unite s t) ↔ v ∈ toList s ∨ v ∈ toList t
  capacity_subtract (s t : σ) : capacity (subtract s t) = capacity s
  mem_subtract {s t : σ} (h : capacity s = capacity t) (v : Nat) :
    v ∈ toList (subtract s t) ↔ v ∈ toList s ∧ v ∉ toList t

attribute [simp] LawfulVersionSet.capacity_empty LawfulVersionSet.toList_empty
  LawfulVersionSet.capacity_add LawfulVersionSet.capacity_remove LawfulVersionSet.capacity_clear
  LawfulVersionSet.toList_clear LawfulVersionSet.capacity_fill LawfulVersionSet.toList_fill
  LawfulVersionSet.capacity_invert LawfulVersionSet.capacity_unite
  LawfulVersionSet.capacity_subtract

theorem eq_of_mem_iff_of_ascending {as bs : List Nat} (ha : as.Pairwise (· < ·))
    (hb : bs.Pairwise (· < ·)) (h : ∀ v, v ∈ as ↔ v ∈ bs) : as = bs := by
  have hperm : as.Perm bs := (List.perm_ext_iff_of_nodup (ha.imp Nat.ne_of_lt)
    (hb.imp Nat.ne_of_lt)).2 h
  exact hperm.eq_of_pairwise (fun a b _ _ hab hba => absurd hab (Nat.lt_asymm hba)) ha hb

/-- The first member of an ascending list is the least one. -/
theorem head?_eq_some_iff_isLeast {vs : List Nat} (h : vs.Pairwise (· < ·)) (v : Nat) :
    vs.head? = some v ↔ IsLeast {w | w ∈ vs} v := by
  cases vs with
  | nil => simp [IsLeast]
  | cons a vs =>
    have hfirst := (List.pairwise_cons.1 h).1
    constructor
    · rintro ⟨⟩
      refine ⟨List.mem_cons_self, fun w hw => ?_⟩
      rcases List.mem_cons.1 hw with rfl | hw
      · exact Nat.le_refl _
      · exact Nat.le_of_lt (hfirst w hw)
    · rintro ⟨hv, hleast⟩
      rcases List.mem_cons.1 hv with rfl | hv
      · rfl
      · exact absurd (hfirst v hv) (Nat.not_lt.2 (hleast List.mem_cons_self))

section Rejected

variable {ε : Type} {keep : Nat → Except ε Bool}

theorem rejected_sublist (keep : Nat → Except ε Bool) (vs : List Nat) :
    (rejected keep vs).1.Sublist vs := by
  induction vs with
  | nil => exact .refl _
  | cons v vs ih =>
    unfold rejected
    cases keep v with
    | error e => exact List.nil_sublist _
    | ok b =>
      cases b with
      | true => exact ih.cons v
      | false => exact ih.cons_cons v

/-- After a failure no question is asked, and otherwise the rest is asked in the same way. -/
theorem rejected_append (vs ws : List Nat) :
    rejected keep (vs ++ ws) =
      match rejected keep vs with
      | (no, some e) => (no, some e)
      | (no, none) => (no ++ (rejected keep ws).1, (rejected keep ws).2) := by
  induction vs with
  | nil => rfl
  | cons v vs ih =>
    rw [List.cons_append, rejected, rejected, ih]
    cases keep v with
    | error e => rfl
    | ok b =>
      cases b with
      | true => rfl
      | false => rcases rejected keep vs with ⟨no, _ | e⟩ <;> rfl

def Answered (keep : Nat → Except ε Bool) (v : Nat) : Prop := ∃ b, keep v = .ok b

/-- No question fails exactly when every value is answered. -/
theorem rejected_eq_none_iff (vs : List Nat) :
    (rejected keep vs).2 = none ↔ ∀ v ∈ vs, Answered keep v := by
  induction vs with
  | nil => simp [rejected]
  | cons v vs ih =>
    unfold rejected
    cases hv : keep v with
    | error e => simp [Answered, hv]
    | ok b => cases b <;> simp [Answered, hv, ih]

/-- The failure is that of the first value that is not answered. -/
theorem rejected_eq_some_iff {vs : List Nat} (h : vs.Pairwise (· < ·)) (e : ε) :
    (rejected keep vs).2 = some e ↔
      ∃ v ∈ vs, keep v = .error e ∧ ∀ w ∈ vs, w < v → Answered keep w := by
  induction vs with
  | nil => simp [rejected]
  | cons v vs ih =>
    obtain ⟨hfirst, hrest⟩ := List.pairwise_cons.1 h
    have hlast : ∀ w ∈ vs, ¬ w < v := fun w hw => Nat.not_lt.2 (Nat.le_of_lt (hfirst w hw))
    unfold rejected
    cases hv : keep v with
    | error e' =>
      have hnot : ¬ Answered keep v := by simp [Answered, hv]
      grind
    | ok b =>
      have hyes : Answered keep v := ⟨b, hv⟩
      have := ih hrest
      cases b <;> grind

/-- Rejected are the values that are answered with no before any failure. -/
theorem mem_rejected_iff {vs : List Nat} (h : vs.Pairwise (· < ·)) (v : Nat) :
    v ∈ (rejected keep vs).1 ↔
      v ∈ vs ∧ keep v = .ok false ∧ ∀ w ∈ vs, w < v → Answered keep w := by
  induction vs with
  | nil => simp [rejected]
  | cons a vs ih =>
    obtain ⟨hfirst, hrest⟩ := List.pairwise_cons.1 h
    have hlast : ∀ w ∈ vs, ¬ w < a := fun w hw => Nat.not_lt.2 (Nat.le_of_lt (hfirst w hw))
    unfold rejected
    cases ha : keep a with
    | error e =>
      have hnot : ¬ Answered keep a := by simp [Answered, ha]
      grind
    | ok b =>
      have hyes : Answered keep a := ⟨b, ha⟩
      have := ih hrest
      cases b <;> grind

end Rejected

namespace VersionSet

section Checked

variable {σ : Type} [VersionSet σ] (s t : σ) (n : Nat) (arena : Arena)

theorem union_eq : union s t =
    if capacity s = capacity t then .ok (unite s t)
    else .error (.capacityMismatch (capacity s) (capacity t)) := by
  rw [union, checkCapacity]
  split <;> rfl

theorem diff_eq : diff s t =
    if capacity s = capacity t then .ok (subtract s t)
    else .error (.capacityMismatch (capacity s) (capacity t)) := by
  rw [diff, checkCapacity]
  split <;> rfl

theorem copy_eq : copy arena s = (arena.take (slotsFor σ (capacity s))).map (s, ·) := by
  rw [copy]
  cases arena.take (slotsFor σ (capacity s)) <;> rfl

variable {s arena} in
theorem eq_of_copy {made : σ × Arena} (h : copy arena s = .ok made) : made.1 = s := by
  rw [copy_eq] at h
  cases htake : arena.take (slotsFor σ (capacity s)) with
  | error e => simp [htake, Except.map] at h
  | ok rest =>
    rw [htake] at h
    cases h
    rfl

theorem create_eq (h : n ≤ largest σ) :
    (create arena n : Except SetError (σ × Arena)) =
      (arena.take (slotsFor σ n)).map (empty n h, ·) := by
  rw [create, dif_pos h]
  cases arena.take (slotsFor σ n) <;> rfl

theorem create_eq_error (h : ¬ n ≤ largest σ) :
    (create arena n : Except SetError (σ × Arena)) = .error (.capacityExceeded n (largest σ)) :=
  dif_neg h

end Checked

variable {σ : Type} [VersionSet σ] [LawfulVersionSet σ] {ε : Type}

open LawfulVersionSet

/-- A set that was created has the capacity that was asked for and no members. -/
theorem empty_of_create {n : Nat} {arena : Arena} {made : σ × Arena}
    (h : create arena n = .ok made) : capacity made.1 = n ∧ toList made.1 = [] := by
  by_cases hle : n ≤ largest σ
  · rw [create_eq n arena hle] at h
    cases htake : arena.take (slotsFor σ n) with
    | error e => simp [htake, Except.map] at h
    | ok rest =>
      rw [htake] at h
      cases h
      exact ⟨capacity_empty hle, toList_empty hle⟩
  · simp [create_eq_error n arena hle] at h

theorem size_eq_iff_of_subset {s t : σ} (h : ∀ v, v ∈ toList s → v ∈ toList t) :
    size s = size t ↔ toList s = toList t := by
  have hsub : (toList s).Sublist (toList t) :=
    List.sublist_of_subperm_of_pairwise
      (List.subperm_of_subset ((ascending s).imp Nat.ne_of_lt) h) (ascending s) (ascending t)
  rw [size_eq, size_eq]
  exact ⟨fun hlen => hsub.eq_of_length hlen, fun heq => by rw [heq]⟩

theorem isEmpty_iff (s : σ) : isEmpty s = true ↔ toList s = [] := by
  simp [isEmpty, size_eq]

theorem capacity_retain (keep : Nat → Except ε Bool) (s : σ) :
    capacity (retain keep s).1 = capacity s := capacity_remove ..

theorem mem_retain (keep : Nat → Except ε Bool) (s : σ) (v : Nat) :
    v ∈ toList (retain keep s).1 ↔ v ∈ toList s ∧ v ∉ (rejected keep (toList s)).1 :=
  mem_remove s ((ascending s).sublist (rejected_sublist ..)) v

/-- Where no question fails, the members that are kept are those answered with yes. -/
theorem mem_retain_of_none {keep : Nat → Except ε Bool} {s : σ}
    (h : (retain keep s).2 = none) (v : Nat) :
    v ∈ toList (retain keep s).1 ↔ v ∈ toList s ∧ keep v = .ok true := by
  have hall := (rejected_eq_none_iff _).1 h
  rw [mem_retain, mem_rejected_iff (ascending s)]
  constructor
  · rintro ⟨hv, hnot⟩
    obtain ⟨b, hb⟩ := hall v hv
    cases b with
    | true => exact ⟨hv, hb⟩
    | false => exact absurd ⟨hv, hb, fun w hw _ => hall w hw⟩ hnot
  · rintro ⟨hv, hyes⟩
    exact ⟨hv, fun hno => by simp [hyes] at hno⟩

end VersionSet

end CardSearch
