import CardSearch.Proofs.Evaluation.Meaning
import CardSearch.Proofs.Evaluation.Negation
import CardSearch.Query.Simplify

/-!
# What a simplified condition is made of

A simplified condition has no leaves but those of the condition and their denials, and it refers to
no other subsets. So simplifying keeps every property of a condition that rests with its leaves and
references, if denials keep it: that all leaves are of some kind, say, or that only certain ids are
referred to.
-/

namespace CardSearch

def Leaf.DenialKeeps (P : Leaf → Prop) : Prop := ∀ l l', l.denied? = some l' → P l → P l'

namespace Condition

def Each (P : Leaf → Prop) (c : Condition) : Prop := ∀ l ∈ c.leaves, P l

variable {P : Leaf → Prop}

theorem Each.mono {Q : Leaf → Prop} {c : Condition} (h : c.Each P) (hPQ : ∀ l, P l → Q l) :
    c.Each Q := fun l hl => hPQ l (h l hl)

@[simp] theorem each_const (b : Bool) : (const b).Each P := by simp [Each]

@[simp] theorem each_subset (id : String) : (subset id).Each P := by simp [Each]

@[simp] theorem each_not {c : Condition} : (not c).Each P ↔ c.Each P := by simp [Each]

@[simp] theorem each_leaf {l : Leaf} : (leaf l).Each P ↔ P l := by simp [Each]

@[simp] theorem each_any {cs : List Condition} : (any cs).Each P ↔ ∀ c ∈ cs, c.Each P := by
  simp only [Each, mem_leaves_any, forall_exists_index, and_imp]
  exact ⟨fun h c hc l hl => h l c hc hl, fun h l c hc hl => h c hc l hl⟩

@[simp] theorem each_all {cs : List Condition} : (all cs).Each P ↔ ∀ c ∈ cs, c.Each P := by
  simp only [Each, mem_leaves_all, forall_exists_index, and_imp]
  exact ⟨fun h c hc l hl => h l c hc hl, fun h l c hc hl => h c hc l hl⟩

structure Hereditary (M : Condition → Prop) : Prop where
  const (b : Bool) : M (.const b)
  not {c : Condition} : M (.not c) ↔ M c
  any {cs : List Condition} : M (.any cs) ↔ ∀ c ∈ cs, M c
  all {cs : List Condition} : M (.all cs) ↔ ∀ c ∈ cs, M c

theorem hereditary_each (P : Leaf → Prop) : Hereditary (Each P) where
  const := each_const
  not := each_not
  any := each_any
  all := each_all

def RefersWithin (S : String → Prop) (c : Condition) : Prop := ∀ id ∈ c.references, S id

theorem hereditary_refersWithin (S : String → Prop) : Hereditary (RefersWithin S) where
  const b := by simp [RefersWithin, references]
  not := by simp [RefersWithin]
  any {cs} := by
    simp only [RefersWithin, mem_references_any, forall_exists_index, and_imp]
    exact ⟨fun h c hc id hid => h id c hc hid, fun h id c hc hid => h c hc id hid⟩
  all {cs} := by
    simp only [RefersWithin, mem_references_all, forall_exists_index, and_imp]
    exact ⟨fun h c hc id hid => h id c hc hid, fun h id c hc hid => h c hc id hid⟩

theorem refersWithin_leaf (S : String → Prop) (l : Leaf) : (leaf l).RefersWithin S := by
  simp [RefersWithin, references]

theorem references_all_leaf (ls : List Leaf) : (all (ls.map .leaf)).references = [] := by
  apply List.eq_nil_iff_forall_not_mem.2
  intro id hid
  obtain ⟨c, hc, hid⟩ := mem_references_all.1 hid
  obtain ⟨l, -, rfl⟩ := List.mem_map.1 hc
  simp [references] at hid

/-- A property that passes from the parts of a condition to the whole as a text puts them together:
constant truth has it, and so do negations and junctions of several conditions that have it. -/
structure Carried (M : Condition → Prop) : Prop where
  truth : M (.const true)
  not {c : Condition} : M c → M (.not c)
  any {cs : List Condition} : 2 ≤ cs.length → (∀ c ∈ cs, M c) → M (.any cs)
  all {cs : List Condition} : 2 ≤ cs.length → (∀ c ∈ cs, M c) → M (.all cs)

theorem Hereditary.carried {M : Condition → Prop} (hM : Hereditary M) : Carried M where
  truth := hM.const true
  not := hM.not.2
  any _ := hM.any.2
  all _ := hM.all.2

theorem of_collapse {M : Condition → Prop} {join : List Condition → Condition}
    {cs : List Condition} {c : Condition}
    (hjoin : 2 ≤ cs.length → (∀ c ∈ cs, M c) → M (join cs)) (h : ∀ c ∈ cs, M c)
    (hc : collapse join cs = some c) : M c := by
  match cs with
  | [] => cases hc
  | [d] =>
    cases hc
    exact h c (by simp)
  | d :: e :: cs =>
    cases hc
    exact hjoin (by simp) h

namespace Hereditary

open Simplified

variable {M : Condition → Prop}

theorem denial (hM : Hereditary M)
    (hdenied : ∀ l l', l.denied? = some l' → M (.leaf l) → M (.leaf l')) {c : Condition} (h : M c) :
    M (denial c) := by
  cases c with
  | leaf l =>
    cases l with
    | compare op p value => exact hdenied _ _ rfl h
    | parity which p => exact hdenied _ _ rfl h
    | contains p part => exact hM.not.2 h
    | range p first firstIncluded last lastIncluded => exact hM.not.2 h
  | const b => exact hM.const !b
  | not c => exact hM.not.1 h
  | any cs => exact hM.not.2 h
  | all cs => exact hM.not.2 h
  | subset id => exact hM.not.2 h

private theorem join (hM : Hereditary M) (j : Junction) {cs : List Condition} :
    M (j.join cs) ↔ ∀ c ∈ cs, M c := by
  cases j with
  | any => exact hM.any
  | all => exact hM.all

theorem parts (hM : Hereditary M) (j : Junction) {c : Condition} (h : M c) :
    ∀ d ∈ j.parts c, M d := by
  have hany {cs : List Condition} : M (.any cs) ↔ ∀ c ∈ cs, M c := hM.any
  have hall {cs : List Condition} : M (.all cs) ↔ ∀ c ∈ cs, M c := hM.all
  cases j <;> cases c <;> simp_all [Junction.parts]

theorem close (hM : Hereditary M) (j : Junction) {cs : List Condition} (h : ∀ c ∈ cs, M c) :
    M (j.close cs) := by
  unfold Junction.close
  cases hc : collapse j.join cs with
  | none => exact hM.const _
  | some c => exact of_collapse (fun _ => (hM.join j).2) h hc

private theorem ofJunction (hM : Hereditary M) {subsets : Dict Subset} {j : Junction}
    {done cs : List Condition} (hdone : ∀ c ∈ done, M c)
    (ih : ∀ c ∈ cs, M (ofCondition subsets c).condition) :
    M (ofJunction subsets j done cs).condition := by
  induction cs generalizing done with
  | nil =>
    rw [Simplified.ofJunction]
    exact hM.close j hdone
  | cons c cs ihcs =>
    rw [Simplified.ofJunction]
    split
    · exact hM.const _
    · refine ihcs (fun d hd => ?_) fun d hd => ih d (by simp [hd])
      exact (List.mem_append.1 hd).elim (hdone d) (hM.parts j (ih c (by simp)) d)

/-- Simplifying keeps the property if denials of leaves keep it. -/
theorem ofCondition (hM : Hereditary M)
    (hdenied : ∀ l l', l.denied? = some l' → M (.leaf l) → M (.leaf l')) (subsets : Dict Subset)
    {c : Condition} (h : M c) : M (ofCondition subsets c).condition := by
  induction c with
  | const b =>
    rw [Simplified.ofCondition]
    exact h
  | leaf l =>
    rw [Simplified.ofCondition]
    exact h
  | subset id =>
    rw [Simplified.ofCondition]
    split <;> exact h
  | not c ih =>
    rw [Simplified.ofCondition]
    exact hM.denial hdenied (ih (hM.not.1 h))
  | any cs ih =>
    rw [Simplified.ofCondition]
    exact hM.ofJunction (List.forall_mem_nil _) fun c hc => ih c hc (hM.any.1 h c hc)
  | all cs ih =>
    rw [Simplified.ofCondition]
    exact hM.ofJunction (List.forall_mem_nil _) fun c hc => ih c hc (hM.all.1 h c hc)

end Hereditary

end Condition

theorem Simplified.each_ofCondition {P : Leaf → Prop} (hP : Leaf.DenialKeeps P)
    (subsets : Dict Subset) {c : Condition} (h : c.Each P) :
    (ofCondition subsets c).condition.Each P :=
  (Condition.hereditary_each P).ofCondition
    (fun l l' hl h => Condition.each_leaf.2 (hP l l' hl (Condition.each_leaf.1 h))) subsets h

/-- Simplifying adds no references. -/
theorem Simplified.refersWithin_ofCondition {S : String → Prop} (subsets : Dict Subset)
    {c : Condition} (h : c.RefersWithin S) : (ofCondition subsets c).condition.RefersWithin S :=
  (Condition.hereditary_refersWithin S).ofCondition
    (fun _ l' _ _ => Condition.refersWithin_leaf S l') subsets h

end CardSearch
