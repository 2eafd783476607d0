import CardSearch.Evaluation
import CardSearch.Proofs.Evaluation.Meaning
import CardSearch.Proofs.VersionSet.Laws

/-!
# Narrowing keeps the versions that satisfy the condition

Narrowing a set by a condition, when it ends well, leaves those members of which the condition
holds. This is so for every truth of the leaves that agrees with the answers that tests give: a
leaf whose test fails may be taken either way, since narrowing only ends well when no such leaf
can change the result.
-/

namespace CardSearch

namespace EvalM

variable {α β : Type} {steps : EvalM α} {P Q : α → Prop}

/-- Whenever the steps end well, what they give has a property. -/
def Yields (steps : EvalM α) (P : α → Prop) : Prop :=
  ∀ state a state', steps.run state = .ok a state' → P a

theorem yields_pure {a : α} (h : P a) : Yields (pure a) P := by
  intro state a' state' hrun
  cases hrun
  exact h

theorem yields_throw (e : EvalCause) : Yields (throw e) P := by
  intro state a state' hrun
  cases hrun

theorem Yields.bind {f : α → EvalM β} {Q : β → Prop} (h : Yields steps P)
    (hf : ∀ a, P a → Yields (f a) Q) : Yields (steps >>= f) Q := by
  intro state b state'' hrun
  simp only [EStateM.run, Bind.bind, EStateM.bind] at hrun
  split at hrun
  · next a state' hsteps => exact hf a (h state a state' hsteps) state' b state'' hrun
  · cases hrun

theorem Yields.imp (h : Yields steps P) (hPQ : ∀ a, P a → Q a) : Yields steps Q :=
  fun state a state' hrun => hPQ a (h state a state' hrun)

theorem yields_ofSet (x : Except SetError α) : Yields (ofSet x) (fun a => x = .ok a) := by
  cases x with
  | ok a => exact yields_pure rfl
  | error e => exact yields_throw _

theorem yields_ofArena {make : Arena → Except SetError (α × Arena)}
    (h : ∀ arena a arena', make arena = .ok (a, arena') → P a) : Yields (ofArena make) P := by
  intro state a state' hrun
  change EStateM.run (ofSet (make state.arena) >>= fun made => do
    set { state with arena := made.2 }
    return made.1) state = _ at hrun
  cases hmake : make state.arena with
  | error e =>
    rw [hmake] at hrun
    cases hrun
  | ok made =>
    rw [hmake] at hrun
    cases hrun
    exact h state.arena _ made.2 hmake

theorem yields_noteMissing (id : String) : Yields (noteMissing id) (fun _ => True) :=
  fun _ _ _ _ => trivial

end EvalM

open VersionSet

/-- Which leaves hold at a version agrees with the answers of the tests: a property of versions is
tested at the version, a property of the card at the first one. -/
structure Agrees (test : Leaf → Nat → Except EvalCause Bool) (v : Nat) (leaf : Leaf → Prop) :
    Prop where
  ofVersion : ∀ l b, l.property.isPerVersion = true → test l v = .ok b → (leaf l ↔ b = true)
  ofCard : ∀ l b, l.property.isPerVersion = false → test l 0 = .ok b → (leaf l ↔ b = true)

/-- The second set has the members of the first one at which something holds. -/
structure NarrowsTo {σ : Type} [VersionSet σ] (test : Leaf → Nat → Except EvalCause Bool)
    (holds : (Leaf → Prop) → Prop) (s t : σ) : Prop where
  capacity_eq : capacity t = capacity s
  mem_iff : ∀ v leaf, Agrees test v leaf → (v ∈ toList t ↔ v ∈ toList s ∧ holds leaf)

/-- Leaves can always be taken to hold where their tests say so. -/
theorem exists_agrees (test : Leaf → Nat → Except EvalCause Bool) (v : Nat) :
    ∃ leaf, Agrees test v leaf :=
  ⟨fun l => test l (if l.property.isPerVersion then v else 0) = .ok true,
    fun l b hp hb => by simp [hp, hb], fun l b hp hb => by simp [hp, hb]⟩

section Narrowing

variable {σ : Type} [VersionSet σ] {test : Leaf → Nat → Except EvalCause Bool}
  {holds : (Leaf → Prop) → Prop}

private theorem NarrowsTo.subset {s t : σ} (h : NarrowsTo test holds s t) {v : Nat}
    (hv : v ∈ toList t) : v ∈ toList s := by
  obtain ⟨leaf, hleaf⟩ := exists_agrees test v
  exact ((h.mem_iff v leaf hleaf).1 hv).1

theorem narrowsTo_self {s : σ} (h : ∀ leaf, holds leaf) : NarrowsTo test holds s s :=
  ⟨rfl, fun _ leaf _ => by simp [h leaf]⟩

theorem yields_copy (s : σ) :
    (EvalM.ofArena fun arena => copy arena s).Yields (fun t => t = s) :=
  EvalM.yields_ofArena fun _ _ _ h => eq_of_copy h

private theorem yields_union (s t : σ) :
    (EvalM.ofSet (union s t)).Yields (fun u => capacity s = capacity t ∧ u = unite s t) := by
  refine (EvalM.yields_ofSet _).imp fun u h => ?_
  rw [union_eq] at h
  split at h
  · next hcap => exact ⟨hcap, by cases h; rfl⟩
  · cases h

theorem yields_diff (s t : σ) :
    (EvalM.ofSet (diff s t)).Yields (fun u => capacity s = capacity t ∧ u = subtract s t) := by
  refine (EvalM.yields_ofSet _).imp fun u h => ?_
  rw [diff_eq] at h
  split at h
  · next hcap => exact ⟨hcap, by cases h; rfl⟩
  · cases h

variable [LawfulVersionSet σ]

theorem yields_create (versions : Nat) :
    (EvalM.ofArena fun arena => create arena versions).Yields fun s : σ =>
      capacity s = versions ∧ toList s = [] :=
  EvalM.yields_ofArena fun _ _ _ h => empty_of_create h

theorem narrowsTo_clear {s : σ} (h : ∀ leaf, ¬ holds leaf) : NarrowsTo test holds s (clear s) :=
  ⟨LawfulVersionSet.capacity_clear s, fun _ leaf _ => by simp [h leaf]⟩

/-- A leaf on a property of versions keeps the versions at which it holds, one on a property of
the card all versions or none. -/
theorem yields_narrowLeaf (l : Leaf) (s : σ) :
    (narrowLeaf test l s).Yields (NarrowsTo test (fun leaf => leaf l) s) := by
  unfold narrowLeaf
  split
  · next hp =>
    cases hr : retain (test l) s with
    | mk t error? =>
      cases error? with
      | some e => exact EvalM.yields_throw e
      | none =>
        refine EvalM.yields_pure ⟨?_, fun v leaf hleaf => ?_⟩
        · have := capacity_retain (test l) s
          rwa [hr] at this
        · have hnone : (retain (test l) s).2 = none := by rw [hr]
          have hmem := mem_retain_of_none hnone v
          rw [hr] at hmem
          rw [hmem]
          refine and_congr_right fun hv => ?_
          obtain ⟨b, hb⟩ := (rejected_eq_none_iff _).1 hnone v hv
          rw [hleaf.ofVersion l b hp hb, hb]
          simp
  · next hp =>
    have hp : l.property.isPerVersion = false := by simpa using hp
    split
    · exact EvalM.yields_throw _
    · next h => exact EvalM.yields_pure ⟨rfl, fun v leaf hleaf => by simp [hleaf.ofCard l _ hp h]⟩
    · next h =>
      exact EvalM.yields_pure ⟨LawfulVersionSet.capacity_clear s, fun v leaf hleaf => by
        simp [hleaf.ofCard l _ hp h]⟩

variable {subset : String → σ → EvalM σ} {stands : (Leaf → Prop) → String → Prop}

open Condition in
theorem yields_narrowAny {cs : List Condition}
    (ih : ∀ c ∈ cs, ∀ s : σ,
      (narrow test subset c s).Yields (NarrowsTo test (fun leaf => c.Holds leaf (stands leaf)) s))
    {candidates found : σ} (hcap : capacity found = capacity candidates)
    (hsub : ∀ v ∈ toList found, v ∈ toList candidates) :
    (narrowAny test subset candidates found cs).Yields fun t =>
      capacity t = capacity candidates ∧ ∀ v leaf, Agrees test v leaf →
        (v ∈ toList t ↔ v ∈ toList found ∨
          v ∈ toList candidates ∧ ∃ c ∈ cs, c.Holds leaf (stands leaf)) := by
  induction cs generalizing found with
  | nil =>
    rw [narrowAny]
    exact EvalM.yields_pure ⟨hcap, fun v leaf _ => by simp⟩
  | cons c cs ihcs =>
    rw [narrowAny]
    refine (ih c (by simp) candidates).bind fun matching hmatching => ?_
    refine (yields_union found matching).bind fun next ⟨hsame, hnext⟩ => ?_
    have hmem : ∀ v, v ∈ toList next ↔ v ∈ toList found ∨ v ∈ toList matching := fun v => by
      rw [hnext, LawfulVersionSet.mem_unite hsame]
    have hcap' : capacity next = capacity candidates := by
      rw [hnext, LawfulVersionSet.capacity_unite, hcap]
    have hsub' : ∀ v ∈ toList next, v ∈ toList candidates := fun v hv =>
      ((hmem v).1 hv).elim (hsub v) hmatching.subset
    split
    · next hsize =>
      -- every candidate has been found, so the conditions that are left cannot add any
      have hall := (size_eq_iff_of_subset hsub').1 hsize
      refine EvalM.yields_pure ⟨hcap', fun v leaf hleaf => ?_⟩
      have := hmem v
      have := hmatching.mem_iff v leaf hleaf
      have := hsub v
      simp only [List.mem_cons, exists_eq_or_imp]
      grind
    · refine (ihcs (fun d hd => ih d (by simp [hd])) hcap' hsub').imp fun t ⟨hcapt, ht⟩ =>
        ⟨hcapt, fun v leaf hleaf => ?_⟩
      have := hmem v
      have := hmatching.mem_iff v leaf hleaf
      have := ht v leaf hleaf
      simp only [List.mem_cons, exists_eq_or_imp]
      grind

open Condition in
theorem yields_narrowAll {cs : List Condition}
    (ih : ∀ c ∈ cs, ∀ s : σ,
      (narrow test subset c s).Yields (NarrowsTo test (fun leaf => c.Holds leaf (stands leaf)) s))
    (s : σ) :
    (narrowAll test subset s cs).Yields
      (NarrowsTo test (fun leaf => ∀ c ∈ cs, c.Holds leaf (stands leaf)) s) := by
  induction cs generalizing s with
  | nil =>
    rw [narrowAll]
    exact EvalM.yields_pure (narrowsTo_self fun leaf => by simp)
  | cons c cs ihcs =>
    rw [narrowAll]
    refine (ih c (by simp) s).bind fun next hnext => ?_
    split
    · next hempty =>
      -- nothing is left, so the conditions that follow cannot take anything away
      have hnil := (isEmpty_iff next).1 hempty
      refine EvalM.yields_pure ⟨hnext.capacity_eq, fun v leaf hleaf => ?_⟩
      have := hnext.mem_iff v leaf hleaf
      simp only [List.forall_mem_cons, hnil]
      grind
    · refine (ihcs (fun d hd => ih d (by simp [hd])) next).imp fun t ht =>
        ⟨ht.capacity_eq.trans hnext.capacity_eq, fun v leaf hleaf => ?_⟩
      rw [ht.mem_iff v leaf hleaf, hnext.mem_iff v leaf hleaf, List.forall_mem_cons, and_assoc]

/-- Narrowing by a condition keeps the members at which it holds, if narrowing by a subset keeps
those at which the subset stands. -/
theorem yields_narrow {c : Condition}
    (hsubset : ∀ id ∈ c.references, ∀ s : σ,
      (subset id s).Yields (NarrowsTo test (fun leaf => stands leaf id) s)) (s : σ) :
    (narrow test subset c s).Yields
      (NarrowsTo test (fun leaf => c.Holds leaf (stands leaf)) s) := by
  induction c generalizing s with
  | const b =>
    cases b with
    | true =>
      rw [narrow]
      exact EvalM.yields_pure (narrowsTo_self fun leaf => by simp)
    | false =>
      rw [narrow]
      exact EvalM.yields_pure (narrowsTo_clear fun leaf => by simp)
  | leaf l =>
    rw [narrow]
    exact (yields_narrowLeaf l s).imp fun t ht => by simpa using ht
  | subset id =>
    rw [narrow]
    exact (hsubset id (by simp) s).imp fun t ht => by simpa using ht
  | not c ih =>
    rw [narrow]
    refine (yields_copy s).bind fun all hall => ?_
    refine (ih (by simpa using hsubset) all).bind fun matching hmatching => ?_
    subst hall
    refine (yields_diff all matching).imp fun t ⟨hcap, ht⟩ => ?_
    subst ht
    refine ⟨LawfulVersionSet.capacity_subtract .., fun v leaf hleaf => ?_⟩
    rw [LawfulVersionSet.mem_subtract hcap, hmatching.mem_iff v leaf hleaf, Condition.holds_not]
    grind
  | any cs ih =>
    rw [narrow]
    have ih := fun c hc => ih c hc fun id hid =>
      hsubset id (Condition.mem_references_any.2 ⟨c, hc, hid⟩)
    refine (yields_copy s).bind fun candidates hcandidates => ?_
    subst hcandidates
    refine (yields_copy candidates).bind fun _ _ => ?_
    refine (yields_narrowAny ih (LawfulVersionSet.capacity_clear candidates) (by simp)).imp
      fun t ⟨hcap, ht⟩ => ⟨hcap, fun v leaf hleaf => ?_⟩
    simp [ht v leaf hleaf]
  | all cs ih =>
    rw [narrow]
    have ih := fun c hc => ih c hc fun id hid =>
      hsubset id (Condition.mem_references_all.2 ⟨c, hc, hid⟩)
    refine (yields_narrowAll ih s).imp fun t ht => ⟨ht.capacity_eq, fun v leaf hleaf => ?_⟩
    simp [ht.mem_iff v leaf hleaf]

/-- With as many references to follow as there are ids left to reach, narrowing by a subset keeps
the members at which it stands. -/
theorem yields_narrowSubset {store : SubsetStore} (h : store.Acyclic) {depth : Nat} {id : String}
    (hdepth : store.rank id ≤ depth) (s : σ) :
    (narrowSubset test store depth id s).Yields
      (NarrowsTo test (fun leaf => store.Stands leaf id) s) := by
  induction depth generalizing id s with
  | zero =>
    cases hget : store.get? id with
    | none =>
      simp only [narrowSubset, hget]
      exact (EvalM.yields_noteMissing id).bind fun _ _ =>
        EvalM.yields_pure (narrowsTo_clear fun leaf => by simp [h.stands_iff, hget])
    | some subset =>
      have := SubsetStore.rank_pos_of_get? hget
      omega
  | succ depth ih =>
    cases hget : store.get? id with
    | none =>
      simp only [narrowSubset, hget]
      exact (EvalM.yields_noteMissing id).bind fun _ _ =>
        EvalM.yields_pure (narrowsTo_clear fun leaf => by simp [h.stands_iff, hget])
    | some subset =>
      simp only [narrowSubset, hget]
      have hlt (other) (hother : other ∈ subset.query.condition.references) :
          store.rank other ≤ depth := by
        have := h.rank_lt ⟨subset, hget, hother⟩
        omega
      have hnarrow : (narrow test (narrowSubset test store depth) subset.query.condition s).Yields
          (NarrowsTo test
            (fun leaf => subset.query.condition.Holds leaf (store.Stands leaf)) s) :=
        yields_narrow (fun other hother => ih (hlt other hother)) s
      refine hnarrow.imp fun t ht => ⟨ht.capacity_eq, fun v leaf hleaf => ?_⟩
      rw [ht.mem_iff v leaf hleaf, h.stands_iff leaf id]
      simp [hget]

/-- Narrowing all versions leaves those below their number at which the condition holds. -/
theorem yields_narrowAllVersions {store : SubsetStore} (h : store.Acyclic) (c : Condition)
    (versions : Nat) :
    (narrowAllVersions test store c versions : EvalM σ).Yields fun t =>
      ∀ v leaf, Agrees test v leaf →
        (v ∈ toList t ↔ v < versions ∧ c.Holds leaf (store.Stands leaf)) := by
  unfold narrowAllVersions
  refine (yields_create versions).bind fun s ⟨hcap, _⟩ => ?_
  have hnarrow : (narrow test (narrowSubset test store store.size) c (fill s)).Yields
      (NarrowsTo test (fun leaf => c.Holds leaf (store.Stands leaf)) (fill s)) :=
    yields_narrow (fun id _ => yields_narrowSubset h (SubsetStore.rank_le_size id)) (fill s)
  refine hnarrow.imp fun t ht v leaf hleaf => ?_
  simp [ht.mem_iff v leaf hleaf, hcap]

end Narrowing

end CardSearch
