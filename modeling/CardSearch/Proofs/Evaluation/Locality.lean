import CardSearch.Evaluation
import CardSearch.Proofs.Evaluation.Meaning

/-!
# What an evaluation reads

Narrowing consults the tests of the leaves of a condition and the subsets that it refers to, and
nothing else. So an evaluation depends on a catalog through the number of versions of the record
and through the values of the properties that are read, in the condition itself or in a subset that
is reached from it.
-/

namespace CardSearch

open Relation

section Narrowing

variable {σ : Type} [VersionSet σ] {test test' : Leaf → Nat → Except EvalCause Bool}
  {subset subset' : String → σ → EvalM σ}

private theorem narrowLeaf_congr {l : Leaf} (h : test l = test' l) (s : σ) :
    narrowLeaf test l s = narrowLeaf test' l s := by
  unfold narrowLeaf
  rw [h]

/-- Conditions may be exchanged for others that narrow alike. -/
theorem narrowAny_map (g : Condition → Condition) {cs : List Condition}
    (h : ∀ c ∈ cs, narrow test subset (g c) = narrow test' subset' c) (candidates found : σ) :
    narrowAny test subset candidates found (cs.map g) =
      narrowAny test' subset' candidates found cs := by
  induction cs generalizing found with
  | nil => simp only [List.map_nil, narrowAny]
  | cons c cs ih =>
    obtain ⟨hc, hcs⟩ := List.forall_mem_cons.1 h
    simp only [List.map_cons, narrowAny, hc, ih hcs]

theorem narrowAll_map (g : Condition → Condition) {cs : List Condition}
    (h : ∀ c ∈ cs, narrow test subset (g c) = narrow test' subset' c) (s : σ) :
    narrowAll test subset s (cs.map g) = narrowAll test' subset' s cs := by
  induction cs generalizing s with
  | nil => simp only [List.map_nil, narrowAll]
  | cons c cs ih =>
    obtain ⟨hc, hcs⟩ := List.forall_mem_cons.1 h
    simp only [List.map_cons, narrowAll, hc, ih hcs]

/-- Only the tests of its leaves and the subsets that it refers to matter for a condition. -/
theorem narrow_congr {c : Condition} (hleaf : ∀ l ∈ c.leaves, test l = test' l)
    (hsubset : ∀ id ∈ c.references, subset id = subset' id) :
    narrow test subset c = narrow test' subset' c := by
  funext s
  induction c generalizing s with
  | const b => cases b <;> simp only [narrow]
  | leaf l =>
    simp only [narrow]
    exact narrowLeaf_congr (hleaf l (by simp)) s
  | subset id =>
    simp only [narrow]
    rw [hsubset id (by simp)]
  | not c ih =>
    have hc : narrow test subset c = narrow test' subset' c :=
      funext (ih (by simpa using hleaf) (by simpa using hsubset))
    simp only [narrow, hc]
  | any cs ih =>
    have hcs : ∀ c ∈ cs, narrow test subset c = narrow test' subset' c := fun c hc => funext <|
      ih c hc (fun l hl => hleaf l (Condition.mem_leaves_any.2 ⟨c, hc, hl⟩))
        fun id hid => hsubset id (Condition.mem_references_any.2 ⟨c, hc, hid⟩)
    have hany := narrowAny_map (σ := σ) id hcs
    rw [List.map_id] at hany
    simp only [narrow, hany]
  | all cs ih =>
    have hcs : ∀ c ∈ cs, narrow test subset c = narrow test' subset' c := fun c hc => funext <|
      ih c hc (fun l hl => hleaf l (Condition.mem_leaves_all.2 ⟨c, hc, hl⟩))
        fun id hid => hsubset id (Condition.mem_references_all.2 ⟨c, hc, hid⟩)
    have hall := narrowAll_map (σ := σ) id hcs
    rw [List.map_id] at hall
    simp only [narrow, hall]

theorem narrowSubset_congr {subsets : SubsetStore} {id : String}
    (h : ∀ other s, ReflTransGen subsets.RefersTo id other → subsets.get? other = some s →
      ∀ l ∈ s.query.condition.leaves, test l = test' l) (depth : Nat) :
    narrowSubset (σ := σ) test subsets depth id = narrowSubset test' subsets depth id := by
  funext s
  induction depth generalizing id s with
  | zero =>
    unfold narrowSubset
    rfl
  | succ depth ih =>
    unfold narrowSubset
    cases hid : subsets.get? id with
    | none => rfl
    | some stored =>
      have hnarrow : narrow test (narrowSubset (σ := σ) test subsets depth) stored.query.condition =
          narrow test' (narrowSubset test' subsets depth) stored.query.condition := by
        refine narrow_congr (h id stored .refl hid) fun other hother => funext fun s => ih ?_ s
        exact fun reached s' hreached => h reached s' (.head ⟨stored, hid, hother⟩ hreached)
      simp only [hnarrow]

end Narrowing

/-- A leaf is consulted for a condition: it is one of its own leaves, or one of a stored subset that
is reached from it. -/
def SubsetStore.Consults (subsets : SubsetStore) (c : Condition) (l : Leaf) : Prop :=
  l ∈ c.leaves ∨ ∃ id ∈ c.references, ∃ other s, ReflTransGen subsets.RefersTo id other ∧
    subsets.get? other = some s ∧ l ∈ s.query.condition.leaves

namespace SubsetStore

variable {store : SubsetStore} {leaf leaf' : Leaf → Prop}

/-- Only the leaves of subsets that are reached from an id matter for what it stands for. -/
theorem Acyclic.stands_congr (h : store.Acyclic) (id : String)
    (hleaf : ∀ other s, ReflTransGen store.RefersTo id other → store.get? other = some s →
      ∀ l ∈ s.query.condition.leaves, leaf l ↔ leaf' l) :
    store.Stands leaf id ↔ store.Stands leaf' id := by
  induction hn : store.rank id using Nat.strong_induction_on generalizing id with
  | _ n ih =>
    subst hn
    rw [h.stands_iff, h.stands_iff]
    refine exists_congr fun s => and_congr_right fun hs => Condition.holds_congr ?_ ?_
    · exact hleaf id s .refl hs
    · intro other hother
      have hrefers : store.RefersTo id other := ⟨s, hs, hother⟩
      refine ih _ (h.rank_lt hrefers) other ?_ rfl
      exact fun reached s' hreached => hleaf reached s' (.head hrefers hreached)

theorem Acyclic.holds_congr_consulted (h : store.Acyclic) {c : Condition}
    (hleaf : ∀ l, store.Consults c l → (leaf l ↔ leaf' l)) :
    c.Holds leaf (store.Stands leaf) ↔ c.Holds leaf' (store.Stands leaf') := by
  refine Condition.holds_congr (fun l hl => hleaf l (.inl hl)) fun id hid => ?_
  refine h.stands_congr id fun other s hreached hs l hl => hleaf l (.inr ?_)
  exact ⟨id, hid, other, s, hreached, hs, hl⟩

end SubsetStore

namespace Evaluator

variable {ctx ctx' : EvalContext} {record : Nat}

/-- Where narrowing comes to the same for all kinds of sets, so does the evaluation. -/
theorem evaluate_congr_narrow (ev : Evaluator)
    (hcount : ctx.versionCount record = ctx'.versionCount record)
    (h : ∀ (σ : Type) [VersionSet σ],
      narrow (ctx.test record) (narrowSubset (σ := σ) (ctx.test record) ctx.subsets ctx.subsets.size)
        ctx.condition =
      narrow (ctx'.test record) (narrowSubset (ctx'.test record) ctx'.subsets ctx'.subsets.size)
        ctx'.condition) :
    ev.evaluate ctx record = ev.evaluate ctx' record := by
  have hversions (σ : Type) [VersionSet σ] :
      versionsIn σ ctx record = versionsIn σ ctx' record := by
    simp only [versionsIn, narrowAllVersions, hcount, h σ]
  simp only [evaluate, hcount, hversions]

/-- The leaves that are consulted and the number of versions decide an evaluation. -/
theorem evaluate_congr (ev : Evaluator) (hcondition : ctx.condition = ctx'.condition)
    (hsubsets : ctx.subsets = ctx'.subsets)
    (hcount : ctx.versionCount record = ctx'.versionCount record)
    (h : ∀ l, ctx.subsets.Consults ctx.condition l → ctx.test record l = ctx'.test record l) :
    ev.evaluate ctx record = ev.evaluate ctx' record := by
  refine evaluate_congr_narrow ev hcount fun σ _ => ?_
  rw [← hcondition, ← hsubsets]
  refine narrow_congr (fun l hl => h l (.inl hl)) fun id hid => narrowSubset_congr ?_ _
  exact fun other s hreached hs l hl => h l (.inr ⟨id, hid, other, s, hreached, hs, hl⟩)

/-- Where a condition refers to no subset, it does not matter which ones are stored. -/
theorem evaluate_of_references_eq_nil (ev : Evaluator) {catalog : Catalog} {condition : Condition}
    (h : condition.references = []) (subsets subsets' : SubsetStore) :
    ev.evaluate ⟨catalog, subsets, condition⟩ record =
      ev.evaluate ⟨catalog, subsets', condition⟩ record := by
  refine evaluate_congr_narrow ev rfl fun σ _ => narrow_congr (fun l _ => rfl) fun id hid => ?_
  change id ∈ condition.references at hid
  rw [h] at hid
  cases hid

end Evaluator

end CardSearch
