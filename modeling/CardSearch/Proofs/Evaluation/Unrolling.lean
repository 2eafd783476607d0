import CardSearch.Proofs.Evaluation.Locality

/-!
# Unrolling references

A reference can be replaced by the condition that is stored under its id, and the references in that
condition in turn. Where the references form no cycle this comes to an end in a tree without
references to stored subsets, and evaluating over the store is the same as evaluating the tree over
no store at all. Nor does narrowing ever come to enter conditions without end.
-/

namespace CardSearch

namespace Condition

mutual

/-- A condition with other conditions in place of its references. -/
def replace (f : String → Condition) : Condition → Condition
  | const b => const b
  | not c => not (replace f c)
  | any cs => any (replaceOf f cs)
  | all cs => all (replaceOf f cs)
  | leaf l => leaf l
  | subset id => f id

def replaceOf (f : String → Condition) : List Condition → List Condition
  | [] => []
  | c :: cs => replace f c :: replaceOf f cs

end

variable {f g : String → Condition}

theorem replaceOf_eq_map (f : String → Condition) (cs : List Condition) :
    replaceOf f cs = cs.map (replace f) := by
  induction cs with
  | nil => rfl
  | cons c cs ih => rw [replaceOf, ih, List.map_cons]

@[simp] theorem replace_const (b : Bool) : replace f (.const b) = .const b := by rw [replace]

@[simp] theorem replace_not (c : Condition) : replace f (.not c) = .not (replace f c) := by
  rw [replace]

@[simp] theorem replace_any (cs : List Condition) :
    replace f (.any cs) = .any (cs.map (replace f)) := by
  rw [replace, replaceOf_eq_map]

@[simp] theorem replace_all (cs : List Condition) :
    replace f (.all cs) = .all (cs.map (replace f)) := by
  rw [replace, replaceOf_eq_map]

@[simp] theorem replace_leaf (l : Leaf) : replace f (.leaf l) = .leaf l := by rw [replace]

@[simp] theorem replace_subset (id : String) : replace f (.subset id) = f id := by rw [replace]

theorem replace_congr {c : Condition} (h : ∀ id ∈ c.references, f id = g id) :
    c.replace f = c.replace g := by
  induction c with
  | const b => simp
  | leaf l => simp
  | subset id => simpa using h id (by simp)
  | not c ih => simp [ih (by simpa using h)]
  | any cs ih =>
    rw [replace_any, replace_any]
    refine congrArg any (List.map_congr_left fun c hc => ih c hc fun id hid => h id ?_)
    exact mem_references_any.2 ⟨c, hc, hid⟩
  | all cs ih =>
    rw [replace_all, replace_all]
    refine congrArg all (List.map_congr_left fun c hc => ih c hc fun id hid => h id ?_)
    exact mem_references_all.2 ⟨c, hc, hid⟩

/-- The references that are left stand in what the others were replaced by. -/
theorem mem_references_replace {id : String} {c : Condition} :
    id ∈ (c.replace f).references ↔ ∃ other ∈ c.references, id ∈ (f other).references := by
  induction c with
  | const b => simp [references]
  | leaf l => simp [references]
  | subset other => simp
  | not c ih => simpa using ih
  | any cs ih =>
    rw [replace_any, mem_references_any]
    constructor
    · rintro ⟨c', hc', hid⟩
      obtain ⟨c, hc, rfl⟩ := List.mem_map.1 hc'
      obtain ⟨other, hother, hin⟩ := (ih c hc).1 hid
      exact ⟨other, mem_references_any.2 ⟨c, hc, hother⟩, hin⟩
    · rintro ⟨other, hother, hin⟩
      obtain ⟨c, hc, hrefers⟩ := mem_references_any.1 hother
      exact ⟨_, List.mem_map.2 ⟨c, hc, rfl⟩, (ih c hc).2 ⟨other, hrefers, hin⟩⟩
  | all cs ih =>
    rw [replace_all, mem_references_all]
    constructor
    · rintro ⟨c', hc', hid⟩
      obtain ⟨c, hc, rfl⟩ := List.mem_map.1 hc'
      obtain ⟨other, hother, hin⟩ := (ih c hc).1 hid
      exact ⟨other, mem_references_all.2 ⟨c, hc, hother⟩, hin⟩
    · rintro ⟨other, hother, hin⟩
      obtain ⟨c, hc, hrefers⟩ := mem_references_all.1 hother
      exact ⟨_, List.mem_map.2 ⟨c, hc, rfl⟩, (ih c hc).2 ⟨other, hrefers, hin⟩⟩

end Condition

namespace SubsetStore

/-- References, followed so many times, in place of ids. -/
def unrolled (store : SubsetStore) : Nat → String → Condition
  | 0, id => .subset id
  | depth + 1, id =>
    match store.get? id with
    | none => .subset id
    | some s => s.query.condition.replace (unrolled store depth)

/-- What an id stands for, followed as often as there are subsets. -/
def tree (store : SubsetStore) : String → Condition := store.unrolled store.size

/-- Each stored id stands for the condition that is stored under it, with every reference in it in
turn replaced by what it stands for. -/
def Unrolls (store : SubsetStore) (tree : String → Condition) : Prop :=
  ∀ id, tree id =
    match store.get? id with
    | none => .subset id
    | some s => s.query.condition.replace tree

variable {store : SubsetStore}

theorem unrolled_of_get?_eq_none {id : String} (h : store.get? id = none) (depth : Nat) :
    store.unrolled depth id = .subset id := by
  cases depth with
  | zero => rfl
  | succ depth => simp only [unrolled, h]

/-- It does not matter how often references are followed, if it is as often as there are ids to be
reached. -/
theorem Acyclic.unrolled_eq (h : store.Acyclic) {depth depth' : Nat} {id : String}
    (hdepth : store.rank id ≤ depth) (hdepth' : store.rank id ≤ depth') :
    store.unrolled depth id = store.unrolled depth' id := by
  induction depth generalizing depth' id with
  | zero =>
    cases hget : store.get? id with
    | none => rw [unrolled_of_get?_eq_none hget, unrolled_of_get?_eq_none hget]
    | some s =>
      have := rank_pos_of_get? hget
      omega
  | succ depth ih =>
    cases hget : store.get? id with
    | none => rw [unrolled_of_get?_eq_none hget, unrolled_of_get?_eq_none hget]
    | some s =>
      have hpos := rank_pos_of_get? hget
      obtain ⟨n, rfl⟩ : ∃ n, depth' = n + 1 := ⟨depth' - 1, by omega⟩
      simp only [unrolled, hget]
      refine Condition.replace_congr fun other hother => ?_
      have hlt := h.rank_lt ⟨s, hget, hother⟩
      exact ih (by omega) (by omega)

theorem Acyclic.unrolls_tree (h : store.Acyclic) : store.Unrolls store.tree := by
  intro id
  cases hget : store.get? id with
  | none => exact unrolled_of_get?_eq_none hget store.size
  | some s =>
    have hlast : store.tree id = store.unrolled (store.size + 1) id :=
      h.unrolled_eq (rank_le_size id) ((rank_le_size id).trans (Nat.le_succ _))
    rw [hlast, unrolled, hget]
    rfl

def Closed (store : SubsetStore) : Prop :=
  ∀ id s, store.get? id = some s → ∀ other ∈ s.query.condition.references,
    ∃ t, store.get? other = some t

/-- If all that stored queries refer to is stored, no references are left in what a stored id stands
for. -/
theorem Acyclic.references_tree (h : store.Acyclic) (hclosed : store.Closed) {id : String}
    (hid : ∃ s, store.get? id = some s) : (store.tree id).references = [] := by
  induction hn : store.rank id using Nat.strong_induction_on generalizing id with
  | _ n ih =>
    subst hn
    obtain ⟨s, hs⟩ := hid
    rw [h.unrolls_tree id, hs, List.eq_nil_iff_forall_not_mem]
    intro other hmem
    obtain ⟨next, hnext, hin⟩ := Condition.mem_references_replace.1 hmem
    rw [ih _ (h.rank_lt ⟨s, hs, hnext⟩) (hclosed id s hs next hnext) rfl] at hin
    cases hin

/-- Narrowing by the first condition may go on to narrow by the second one. -/
inductive Enters (store : SubsetStore) : Condition → Condition → Prop
  | not (c : Condition) : Enters store (.not c) c
  | any {cs : List Condition} {c : Condition} (h : c ∈ cs) : Enters store (.any cs) c
  | all {cs : List Condition} {c : Condition} (h : c ∈ cs) : Enters store (.all cs) c
  | subset {id : String} {s : Subset} (h : store.get? id = some s) :
    Enters store (.subset id) s.query.condition

private theorem acc_of_references {c : Condition}
    (h : ∀ id ∈ c.references, Acc (fun next c => store.Enters c next) (.subset id)) :
    Acc (fun next c => store.Enters c next) c := by
  induction c with
  | const b => exact ⟨_, by rintro next ⟨⟩⟩
  | leaf l => exact ⟨_, by rintro next ⟨⟩⟩
  | subset id => exact h id (by simp)
  | not c ih =>
    refine ⟨_, ?_⟩
    rintro next ⟨⟩
    exact ih (by simpa using h)
  | any cs ih =>
    refine ⟨_, ?_⟩
    rintro next ⟨⟩
    next hc => exact ih next hc fun id hid => h id (Condition.mem_references_any.2 ⟨next, hc, hid⟩)
  | all cs ih =>
    refine ⟨_, ?_⟩
    rintro next ⟨⟩
    next hc => exact ih next hc fun id hid => h id (Condition.mem_references_all.2 ⟨next, hc, hid⟩)

/-- Without cycles there is no endless way into conditions. -/
theorem Acyclic.wellFounded_enters (h : store.Acyclic) :
    WellFounded fun next c => store.Enters c next := by
  have hsubset (id : String) : Acc (fun next c => store.Enters c next) (.subset id) := by
    induction hn : store.rank id using Nat.strong_induction_on generalizing id with
    | _ n ih =>
      subst hn
      refine ⟨_, ?_⟩
      rintro next ⟨⟩
      next s hs =>
        refine acc_of_references fun other hother => ?_
        exact ih _ (h.rank_lt ⟨s, hs, hother⟩) other rfl
  exact ⟨fun c => acc_of_references fun id _ => hsubset id⟩

end SubsetStore

section Narrowing

variable {σ : Type} [VersionSet σ] {test : Leaf → Nat → Except EvalCause Bool}
  {subset subset' : String → σ → EvalM σ} {store : SubsetStore}

/-- Replacing references comes to the same as narrowing by what replaces them. -/
theorem narrow_replace (f : String → Condition) (c : Condition) :
    narrow test subset (c.replace f) = narrow test (fun id => narrow test subset (f id)) c := by
  funext s
  induction c generalizing s with
  | const b => cases b <;> simp only [Condition.replace_const, narrow]
  | leaf l => simp only [Condition.replace_leaf, narrow]
  | subset id => simp only [Condition.replace_subset, narrow]
  | not c ih => simp only [Condition.replace_not, narrow, ih]
  | any cs ih =>
    simp only [Condition.replace_any, narrow, narrowAny_map _ fun c hc => funext (ih c hc)]
  | all cs ih =>
    simp only [Condition.replace_all, narrow, narrowAll_map _ fun c hc => funext (ih c hc)]

private theorem narrowSubset_of_get?_eq_none {id : String} (h : store.get? id = none)
    (depth : Nat) :
    narrowSubset (σ := σ) test store depth id = narrow test (narrowSubset test ∅ 0) (.subset id) := by
  funext s
  rw [narrow, narrowSubset, h]
  rfl

/-- As deep as references go, narrowing by a subset is narrowing by what its id stands for, with no
subset stored. -/
theorem SubsetStore.Acyclic.narrowSubset_eq (h : store.Acyclic) {depth : Nat} {id : String}
    (hdepth : store.rank id ≤ depth) :
    narrowSubset (σ := σ) test store depth id =
      narrow test (narrowSubset test ∅ 0) (store.tree id) := by
  induction depth generalizing id with
  | zero =>
    cases hget : store.get? id with
    | none => rw [h.unrolls_tree id, hget, narrowSubset_of_get?_eq_none hget]
    | some s =>
      have := SubsetStore.rank_pos_of_get? hget
      omega
  | succ depth ih =>
    cases hget : store.get? id with
    | none => rw [h.unrolls_tree id, hget, narrowSubset_of_get?_eq_none hget]
    | some stored =>
      have hrest : ∀ other ∈ stored.query.condition.references,
          narrowSubset (σ := σ) test store depth other =
            narrow test (narrowSubset test ∅ 0) (store.tree other) := by
        intro other hother
        have hlt := h.rank_lt ⟨stored, hget, hother⟩
        exact ih (by omega)
      funext s
      rw [h.unrolls_tree id, hget, narrowSubset, hget, narrow_replace]
      dsimp only
      rw [narrow_congr (fun _ _ => rfl) hrest]

end Narrowing

namespace Evaluator

/-- Evaluating over stored subsets without cycles is evaluating the tree that their conditions make,
over none. -/
theorem evaluate_tree (ev : Evaluator) {store : SubsetStore} (h : store.Acyclic) (catalog : Catalog)
    (c : Condition) (record : Nat) :
    ev.evaluate ⟨catalog, store, c⟩ record =
      ev.evaluate ⟨catalog, ∅, c.replace store.tree⟩ record := by
  refine ev.evaluate_congr_narrow rfl fun σ _ => ?_
  have hsubset : ∀ id ∈ c.references,
      narrowSubset (σ := σ) (EvalContext.test ⟨catalog, store, c⟩ record) store store.size id =
        narrow (EvalContext.test ⟨catalog, store, c⟩ record)
          (narrowSubset (EvalContext.test ⟨catalog, store, c⟩ record) ∅ 0) (store.tree id) :=
    fun id _ => h.narrowSubset_eq (SubsetStore.rank_le_size id)
  rw [narrow_congr (fun _ _ => rfl) hsubset, ← narrow_replace]
  rfl

end Evaluator

end CardSearch
