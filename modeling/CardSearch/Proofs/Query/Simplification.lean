import CardSearch.Proofs.Evaluation.Records
import CardSearch.Proofs.Query.Leaves

/-!
# Simplifying keeps what a condition means

Whatever subsets stand for, a simplified condition holds where the condition does, provided that
the denial of each of its comparisons and parities holds exactly where the leaf itself does not.
For equalities this is always so. A junction is decided by any part that has its absorbing truth
value; flattening, dropping neutral constants and stopping at an absorbing one all keep which
parts there are that decide it.
-/

namespace CardSearch

open Condition

namespace Simplified

variable {leaf : Leaf → Prop} {subset : String → Prop}

def Opposed (leaf : Leaf → Prop) (l : Leaf) : Prop :=
  ∀ l', l.denied? = some l' → (leaf l' ↔ ¬ leaf l)

theorem denialKeeps_opposed : Leaf.DenialKeeps (Opposed leaf) := by
  intro l l' hl h l'' hl''
  rw [Leaf.denied?_symm hl] at hl''
  cases hl''
  rw [h l' hl, not_not]

private theorem holds_denial {c : Condition} (h : c.Each (Opposed leaf)) :
    (denial c).Holds leaf subset ↔ ¬ c.Holds leaf subset := by
  cases c with
  | const b => cases b <;> simp [denial]
  | not c => simp [denial]
  | leaf l =>
    have h := h l (by simp)
    cases l with
    | compare op p value => simpa [denial] using h _ rfl
    | parity which p => simpa [denial] using h _ rfl
    | contains p part => simp [denial]
    | range p first firstIncluded last lastIncluded => simp [denial]
  | any cs => simp [denial]
  | all cs => simp [denial]
  | subset id => simp [denial]

namespace Junction

def Decides (leaf : Leaf → Prop) (subset : String → Prop) (j : Junction) (c : Condition) : Prop :=
  c.Holds leaf subset ↔ j.absorbing = true

private theorem decides_join (j : Junction) (cs : List Condition) :
    Decides leaf subset j (j.join cs) ↔ ∃ c ∈ cs, Decides leaf subset j c := by
  cases j <;> simp [Decides, join, absorbing]

theorem decides_const (j : Junction) (b : Bool) :
    Decides leaf subset j (.const b) ↔ b = j.absorbing := by
  cases j <;> cases b <;> simp [Decides, absorbing]

/-- What a condition contributes decides the junction exactly when the condition does. -/
theorem decides_parts (j : Junction) {c : Condition} (h : c ≠ .const j.absorbing) :
    (∃ d ∈ j.parts c, Decides leaf subset j d) ↔ Decides leaf subset j c := by
  cases j <;> cases c <;> simp_all [parts, Decides, absorbing]

private theorem decides_close (j : Junction) (cs : List Condition) :
    Decides leaf subset j (j.close cs) ↔ ∃ c ∈ cs, Decides leaf subset j c := by
  unfold close collapse
  split
  · cases j <;> simp [decides_const, absorbing]
  · simp
  · simp [decides_join]

end Junction

private theorem holds_ofJunction {subsets : Dict Subset} {j : Junction} {done cs : List Condition}
    (ih : ∀ c ∈ cs, (ofCondition subsets c).condition.Holds leaf subset ↔ c.Holds leaf subset) :
    j.Decides leaf subset (ofJunction subsets j done cs).condition ↔
      (∃ c ∈ done, j.Decides leaf subset c) ∨ ∃ c ∈ cs, j.Decides leaf subset c := by
  induction cs generalizing done with
  | nil =>
    rw [ofJunction]
    simp [Junction.decides_close]
  | cons c cs ihcs =>
    have hc : j.Decides leaf subset (ofCondition subsets c).condition ↔
        j.Decides leaf subset c := by simp [Junction.Decides, ih c (by simp)]
    rw [ofJunction]
    split
    · next heq =>
      rw [heq, Junction.decides_const] at hc
      have hdecides : j.Decides leaf subset c := hc.1 rfl
      simp [Junction.decides_const, hdecides]
    · next hne =>
      have hparts : (∃ d ∈ j.parts (ofCondition subsets c).condition, j.Decides leaf subset d) ↔
          j.Decides leaf subset (ofCondition subsets c).condition := j.decides_parts hne
      rw [ihcs fun d hd => ih d (by simp [hd])]
      simp only [List.mem_append, List.mem_cons, or_and_right, exists_or, exists_eq_left, hparts,
        hc, or_assoc]

private theorem holds_ofCondition (subsets : Dict Subset) {c : Condition}
    (h : c.Each (Opposed leaf)) :
    (ofCondition subsets c).condition.Holds leaf subset ↔ c.Holds leaf subset := by
  induction c with
  | const b => rw [ofCondition]
  | leaf l => rw [ofCondition]
  | subset id =>
    rw [ofCondition]
    split <;> exact Iff.rfl
  | not c ih =>
    have hc := each_not.1 h
    rw [ofCondition, holds_denial (each_ofCondition denialKeeps_opposed subsets hc), ih hc, holds_not]
  | any cs ih =>
    have hdecides : Junction.any.Decides leaf subset (ofJunction subsets .any [] cs).condition ↔ _ :=
      holds_ofJunction fun c hc => ih c hc (each_any.1 h c hc)
    rw [ofCondition]
    simpa [Junction.Decides, Junction.absorbing] using hdecides
  | all cs ih =>
    have hdecides : Junction.all.Decides leaf subset (ofJunction subsets .all [] cs).condition ↔ _ :=
      holds_ofJunction fun c hc => ih c hc (each_all.1 h c hc)
    rw [ofCondition]
    simpa [Junction.Decides, Junction.absorbing, not_iff_not] using not_congr hdecides

structure Keeps (leaf : Leaf → Prop) (subset : String → Prop) (c d : Condition) : Prop where
  holds_iff : d.Holds leaf subset ↔ c.Holds leaf subset
  opposed : ∀ l ∈ d.leaves, Opposed leaf l

private theorem keeps_ofCondition (subsets : Dict Subset) {c : Condition}
    (h : c.Each (Opposed leaf)) : Keeps leaf subset c (ofCondition subsets c).condition :=
  ⟨holds_ofCondition subsets h, each_ofCondition denialKeeps_opposed subsets h⟩

end Simplified

namespace Catalog

/-- At a version of a record a leaf and its denial have opposite answers, where both have one. -/
def Opposes (catalog : Catalog) (record v : Nat) (l : Leaf) : Prop :=
  ∀ l' b b', l.denied? = some l' →
    l.matchesValues (catalog.getForVersion record v l.property) = .ok b →
    l'.matchesValues (catalog.getForVersion record v l'.property) = .ok b' → b' = !b

/-- At every version of a record, each comparison of a condition that is no equality, and each
parity, has the opposite answer of its denial. -/
def NegationsOppose (catalog : Catalog) (record : Nat) (c : Condition) : Prop :=
  ∀ l ∈ c.leaves, l.isOrdering = true →
    ∀ v < (catalog.versionCount? record).getD 1, catalog.Opposes record v l

private theorem NegationsOppose.opposes {catalog : Catalog} {record : Nat} {c : Condition}
    (h : catalog.NegationsOppose record c) {v : Nat}
    (hv : v < (catalog.versionCount? record).getD 1) {l : Leaf} (hl : l ∈ c.leaves) :
    catalog.Opposes record v l := by
  cases hord : l.isOrdering with
  | true => exact h l hl hord v hv
  | false =>
    intro l' b b' hl' hb hb'
    rw [Leaf.property_of_denied? hl'] at hb'
    exact Leaf.opposite_of_equality hl' hord hb hb'

/-- A truth of the leaves at a version that agrees with all answers and, of two undecided leaves
that deny each other, takes the exclusion to hold. -/
def opposedReading (catalog : Catalog) (record v : Nat) (l : Leaf) : Prop :=
  match l.matchesValues (catalog.getForVersion record v l.property) with
  | .ok b => b = true
  | .error _ =>
    match l.denied? with
    | none => False
    | some l' =>
      match l'.matchesValues (catalog.getForVersion record v l'.property) with
      | .ok b => b = false
      | .error _ => l.isExclusion = true

private theorem reads_opposedReading (ctx : EvalContext) (record v : Nat) :
    ctx.Reads record v (ctx.catalog.opposedReading record v) where
  ofVersion l b _ hb := by simp [opposedReading, hb]
  ofCard l b hp hb := by
    rw [← EvalContext.getForVersion_of_card (v := v) hp] at hb
    simp [opposedReading, hb]

private theorem opposed_opposedReading {catalog : Catalog} {record v : Nat} {l : Leaf}
    (h : catalog.Opposes record v l) :
    Simplified.Opposed (catalog.opposedReading record v) l := by
  intro l' hl'
  have hsymm := Leaf.denied?_symm hl'
  have hexcl := Leaf.isExclusion_of_denied? hl'
  simp only [opposedReading, hl', hsymm]
  cases hb : l.matchesValues (catalog.getForVersion record v l.property) with
  | ok b =>
    cases hb' : l'.matchesValues (catalog.getForVersion record v l'.property) with
    | ok b' => simp [h l' b b' hl' hb hb']
    | error e => simp
  | error e =>
    cases hb' : l'.matchesValues (catalog.getForVersion record v l'.property) with
    | ok b' => simp
    | error e' => simp [hexcl]

end Catalog

namespace Query

variable {catalog : Catalog} {store : SubsetStore} {record : Nat}

/-- An evaluation of a query on a record that ends well. -/
def Finds (catalog : Catalog) (store : SubsetStore) (record : Nat) (q : Query)
    (versions : List Nat) : Prop :=
  ∃ ev : Evaluator, (ev.evaluate ⟨catalog, store, q.condition⟩ record).versions = .ok versions

theorem Finds.finds (h : store.Acyclic) {q : Query} {versions : List Nat}
    (hq : q.Finds catalog store record versions) :
    Evaluator.Finds ⟨catalog, store, q.condition⟩ record versions :=
  let ⟨_, heval⟩ := hq
  Evaluator.finds_of_evaluate h heval

private theorem Finds.mem_iff (h : store.Acyclic) {q : Query} {versions : List Nat}
    (hq : q.Finds catalog store record versions) (v : Nat) :
    v ∈ versions ↔ v < (catalog.versionCount? record).getD 1 ∧
      q.condition.Holds (catalog.opposedReading record v)
        (store.Stands (catalog.opposedReading record v)) :=
  (hq.finds h).2 v _ (Catalog.reads_opposedReading ⟨catalog, store, q.condition⟩ record v)

theorem holds_simplify {leaf : Leaf → Prop} {subset : String → Prop} (subsets : Dict Subset)
    {q : Query} (h : ∀ l ∈ q.condition.leaves, Simplified.Opposed leaf l) :
    (q.simplify subsets).condition.Holds leaf subset ↔ q.condition.Holds leaf subset :=
  (Simplified.keeps_ofCondition subsets h).holds_iff

theorem holds_conjunction {leaf : Leaf → Prop} {subset : String → Prop} (subsets : Dict Subset)
    {qs : List Query} (h : ∀ q ∈ qs, ∀ l ∈ q.condition.leaves, Simplified.Opposed leaf l) :
    (conjunction subsets qs).condition.Holds leaf subset ↔
      ∀ q ∈ qs, q.condition.Holds leaf subset := by
  unfold conjunction
  split
  · simp [all]
  · simp
  · rw [holds_simplify subsets]
    · simp
    · intro l hl
      simp only [mem_leaves_all, List.mem_map] at hl
      obtain ⟨c, ⟨q, hq, rfl⟩, hl⟩ := hl
      exact h q hq l hl

/-- Over a store of subsets without cycles, let negating the comparisons other than equalities
and the parities of queries turn their answers on a record around. Then simplifying a query does
not change the versions that an evaluation finds, if both evaluations end well; and the conjunction
of queries finds the versions that each of them finds, all versions if there are none. -/
theorem simplify_keeps_versions {catalog : Catalog} {store : SubsetStore} (h : store.Acyclic)
    (subsets : Dict Subset) (record : Nat) :
    (∀ q : Query, catalog.NegationsOppose record q.condition → ∀ versions simplified,
      q.Finds catalog store record versions →
      (q.simplify subsets).Finds catalog store record simplified → simplified = versions) ∧
    ∀ qs : List Query, (∀ q ∈ qs, catalog.NegationsOppose record q.condition) →
      ∀ each versions, List.Forall₂ (Finds catalog store record) qs each →
      (conjunction subsets qs).Finds catalog store record versions →
      versions = (List.range ((catalog.versionCount? record).getD 1)).filter
        (fun v => each.all (v ∈ ·)) := by
  constructor
  · intro q hq versions simplified hversions hsimplified
    refine eq_of_mem_iff_of_ascending (hsimplified.finds h).1 (hversions.finds h).1 fun v => ?_
    rw [hsimplified.mem_iff h, hversions.mem_iff h]
    refine and_congr_right fun hv => holds_simplify subsets fun l hl => ?_
    exact Catalog.opposed_opposedReading (hq.opposes hv hl)
  · intro qs hqs each versions heach hversions
    refine (filter_range_eq_of_mem_iff (hversions.finds h).1 fun v => ?_).symm
    rw [hversions.mem_iff h]
    refine and_congr_right fun hv => ?_
    rw [holds_conjunction subsets fun q hq l hl =>
      Catalog.opposed_opposedReading ((hqs q hq).opposes hv hl)]
    clear hversions hqs
    induction heach with
    | nil => simp
    | cons hq _ ih => simp [hq.mem_iff h, hv, ih]

def wideRare : Query :=
  ⟨∅, .all [.not (.compare .lt .rarity (.rarity .rare)), .all [.subset "b", .const true]]⟩

def notMythic : Query := ⟨∅, .not (.compare .eq .rarity (.rarity .mythic))⟩

theorem negationsOppose_wideRare : printings.catalog.NegationsOppose 0 wideRare.condition := by
  intro l hl _ v hv l' b b' hl' hb hb'
  obtain rfl : l = .compare .lt .rarity (.rarity .rare) := by
    simpa [wideRare, Condition.compare] using hl
  cases hl'
  obtain rfl | rfl | rfl : v = 0 ∨ v = 1 ∨ v = 2 := by
    have hv : v < 3 := hv
    omega
  all_goals
    cases hb
    cases hb'
    rfl

private theorem negationsOppose_notMythic :
    printings.catalog.NegationsOppose 0 notMythic.condition := by
  intro l hl hord
  obtain rfl : l = .compare .eq .rarity (.rarity .mythic) := by
    simpa [notMythic, Condition.compare] using hl
  cases hord

/-- Two printings are wide and at least rare, before and after the negation is taken into the
comparison, and one of them is not mythic. -/
theorem simplify_keeps_versions_printings :
    printings.subsets.Acyclic ∧
    printings.catalog.NegationsOppose 0 wideRare.condition ∧
    wideRare.Finds printings.catalog printings.subsets 0 [1, 2] ∧
    (∀ simplified, (wideRare.simplify {}).Finds printings.catalog printings.subsets 0 simplified →
      simplified = [1, 2]) ∧
    (wideRare.simplify {}).Finds printings.catalog printings.subsets 0 [1, 2] ∧
    (∀ versions, (conjunction {} [wideRare, notMythic]).Finds
      printings.catalog printings.subsets 0 versions → versions = [1]) ∧
    (conjunction {} [wideRare, notMythic]).Finds printings.catalog printings.subsets 0 [1] := by
  have hwide : wideRare.Finds printings.catalog printings.subsets 0 [1, 2] :=
    ⟨.new {} 0, rfl⟩
  have hmythic : notMythic.Finds printings.catalog printings.subsets 0 [0, 1] :=
    ⟨.new {} 0, rfl⟩
  obtain ⟨hsimplify, hconjunction⟩ := simplify_keeps_versions acyclic_printings {} 0
  refine ⟨acyclic_printings, negationsOppose_wideRare, hwide, ?_, ⟨.new {} 0, rfl⟩, ?_,
    ⟨.new {} 0, rfl⟩⟩
  · exact fun simplified => hsimplify wideRare negationsOppose_wideRare _ simplified hwide
  · refine fun versions hversions => (hconjunction _ ?_ _ versions (.cons hwide (.cons hmythic .nil))
      hversions).trans rfl
    simp [negationsOppose_wideRare, negationsOppose_notMythic]

end Query

end CardSearch
