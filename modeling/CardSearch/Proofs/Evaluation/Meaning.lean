import CardSearch.Subset
import Mathlib.Data.Finset.Card
import Mathlib.Logic.Relation

/-!
# What a condition means

A condition means a proposition, given what its leaves mean and what the subsets that it refers to
mean. In a store whose references form no cycle every subset has a meaning of its own: that of the
condition stored under its id, with the subsets it refers to taken at their own meaning. An id that
is not stored means nothing holds.

The number of stored ids that can be reached from an id decreases along references, and it never
exceeds the size of the store.
-/

namespace CardSearch

namespace Condition

/-- Induction on conditions, with the parts of a junction as a list. -/
@[elab_as_elim, induction_eliminator]
theorem induction {motive : Condition → Prop} (const : ∀ b, motive (.const b))
    (not : ∀ c, motive c → motive (.not c))
    (any : ∀ cs, (∀ c ∈ cs, motive c) → motive (.any cs))
    (all : ∀ cs, (∀ c ∈ cs, motive c) → motive (.all cs))
    (leaf : ∀ l, motive (.leaf l)) (subset : ∀ id, motive (.subset id)) (c : Condition) :
    motive c :=
  Condition.rec (motive_1 := motive) (motive_2 := fun cs => ∀ c ∈ cs, motive c) const not any all
    leaf subset (by simp) (fun c cs hc hcs => by simpa using ⟨hc, hcs⟩) c

mutual

def Holds (leaf : Leaf → Prop) (subset : String → Prop) : Condition → Prop
  | .const b => b = true
  | .not c => ¬ Holds leaf subset c
  | .any cs => HoldsAny leaf subset cs
  | .all cs => HoldsAll leaf subset cs
  | .leaf l => leaf l
  | .subset id => subset id

def HoldsAny (leaf : Leaf → Prop) (subset : String → Prop) : List Condition → Prop
  | [] => False
  | c :: cs => Holds leaf subset c ∨ HoldsAny leaf subset cs

def HoldsAll (leaf : Leaf → Prop) (subset : String → Prop) : List Condition → Prop
  | [] => True
  | c :: cs => Holds leaf subset c ∧ HoldsAll leaf subset cs

end

mutual

/-- The ids of subsets that a condition refers to. -/
def references : Condition → List String
  | .const _ | .leaf _ => []
  | .not c => references c
  | .any cs | .all cs => referencesOf cs
  | .subset id => [id]

def referencesOf : List Condition → List String
  | [] => []
  | c :: cs => references c ++ referencesOf cs

end

mutual

/-- The leaves of a condition, those of subsets that it refers to not among them. -/
def leaves : Condition → List Leaf
  | .const _ | .subset _ => []
  | .not c => leaves c
  | .any cs | .all cs => leavesOf cs
  | .leaf l => [l]

def leavesOf : List Condition → List Leaf
  | [] => []
  | c :: cs => leaves c ++ leavesOf cs

end

theorem mem_leavesOf {l : Leaf} {cs : List Condition} :
    l ∈ leavesOf cs ↔ ∃ c ∈ cs, l ∈ leaves c := by
  induction cs with
  | nil => simp [leavesOf]
  | cons c cs ih => simp [leavesOf, ih]

@[simp] theorem leaves_const (b : Bool) : leaves (.const b) = [] := by rw [leaves]

@[simp] theorem leaves_not (c : Condition) : leaves (.not c) = leaves c := by rw [leaves]

@[simp] theorem leaves_leaf (l : Leaf) : leaves (.leaf l) = [l] := by rw [leaves]

@[simp] theorem leaves_subset (id : String) : leaves (.subset id) = [] := by rw [leaves]

@[simp] theorem mem_leaves_any {l : Leaf} {cs : List Condition} :
    l ∈ leaves (.any cs) ↔ ∃ c ∈ cs, l ∈ leaves c := by
  rw [leaves, mem_leavesOf]

@[simp] theorem mem_leaves_all {l : Leaf} {cs : List Condition} :
    l ∈ leaves (.all cs) ↔ ∃ c ∈ cs, l ∈ leaves c := by
  rw [leaves, mem_leavesOf]

section Holds

variable {leaf : Leaf → Prop} {subset : String → Prop}

@[simp] theorem holds_const (b : Bool) : Holds leaf subset (.const b) ↔ b = true := by
  rw [Holds]

@[simp] theorem holds_not (c : Condition) :
    Holds leaf subset (.not c) ↔ ¬ Holds leaf subset c := by rw [Holds]

@[simp] theorem holds_leaf (l : Leaf) : Holds leaf subset (.leaf l) ↔ leaf l := by rw [Holds]

@[simp] theorem holds_subset (id : String) : Holds leaf subset (.subset id) ↔ subset id := by
  rw [Holds]

@[simp] theorem holds_any (cs : List Condition) :
    Holds leaf subset (.any cs) ↔ ∃ c ∈ cs, Holds leaf subset c := by
  rw [Holds]
  induction cs with
  | nil => simp [HoldsAny]
  | cons c cs ih => simp [HoldsAny, ih]

@[simp] theorem holds_all (cs : List Condition) :
    Holds leaf subset (.all cs) ↔ ∀ c ∈ cs, Holds leaf subset c := by
  rw [Holds]
  induction cs with
  | nil => simp [HoldsAll]
  | cons c cs ih => simp [HoldsAll, ih]

theorem mem_referencesOf {id : String} {cs : List Condition} :
    id ∈ referencesOf cs ↔ ∃ c ∈ cs, id ∈ references c := by
  induction cs with
  | nil => simp [referencesOf]
  | cons c cs ih => simp [referencesOf, ih]

@[simp] theorem references_not (c : Condition) : references (.not c) = references c := by
  rw [references]

@[simp] theorem references_subset (id : String) : references (.subset id) = [id] := by
  rw [references]

@[simp] theorem mem_references_any {id : String} {cs : List Condition} :
    id ∈ references (.any cs) ↔ ∃ c ∈ cs, id ∈ references c := by
  rw [references, mem_referencesOf]

@[simp] theorem mem_references_all {id : String} {cs : List Condition} :
    id ∈ references (.all cs) ↔ ∃ c ∈ cs, id ∈ references c := by
  rw [references, mem_referencesOf]

/-- Only its leaves and the subsets that it refers to matter for a condition. -/
theorem holds_congr {leaf' : Leaf → Prop} {subset' : String → Prop} {c : Condition}
    (hleaf : ∀ l ∈ c.leaves, leaf l ↔ leaf' l)
    (hsubset : ∀ id ∈ c.references, subset id ↔ subset' id) :
    Holds leaf subset c ↔ Holds leaf' subset' c := by
  induction c with
  | const b => simp
  | leaf l => simpa using hleaf l (by simp)
  | subset id => simpa using hsubset id (by simp)
  | not c ih => simp [ih (by simpa using hleaf) (by simpa using hsubset)]
  | any cs ih =>
    simp only [holds_any]
    exact exists_congr fun c => and_congr_right fun hc =>
      ih c hc (fun l hl => hleaf l (mem_leaves_any.2 ⟨c, hc, hl⟩))
        fun id hid => hsubset id (mem_references_any.2 ⟨c, hc, hid⟩)
  | all cs ih =>
    simp only [holds_all]
    exact forall_congr' fun c => imp_congr_right fun hc =>
      ih c hc (fun l hl => hleaf l (mem_leaves_all.2 ⟨c, hc, hl⟩))
        fun id hid => hsubset id (mem_references_all.2 ⟨c, hc, hid⟩)

/-- Only the subsets that a condition refers to matter for it, if the leaves stay as they are. -/
theorem holds_congr_subset {subset' : String → Prop} {c : Condition}
    (h : ∀ id ∈ c.references, subset id ↔ subset' id) :
    Holds leaf subset c ↔ Holds leaf subset' c :=
  holds_congr (fun _ _ => .rfl) h

end Holds

end Condition

namespace SubsetStore

open Relation

/-- The subset stored under the first id refers to the second one. -/
def RefersTo (store : SubsetStore) (a b : String) : Prop :=
  ∃ s, store.get? a = some s ∧ b ∈ s.query.condition.references

/-- No id leads back to itself along references. -/
def Acyclic (store : SubsetStore) : Prop := ∀ id, ¬ TransGen store.RefersTo id id

def ids (store : SubsetStore) : List String := store.byId.entries.map (·.1)

open Classical in
noncomputable def reached (store : SubsetStore) (id : String) : Finset String :=
  store.ids.toFinset.filter (ReflTransGen store.RefersTo id)

/-- How many stored ids are reached from an id. -/
noncomputable def rank (store : SubsetStore) (id : String) : Nat := (store.reached id).card

variable {store : SubsetStore}

theorem mem_ids_of_get? {id : String} {s : Subset} (h : store.get? id = some s) :
    id ∈ store.ids := by
  simp only [get?, Dict.get?, Option.map_eq_some_iff] at h
  obtain ⟨e, he, _⟩ := h
  have hkey := List.find?_some he
  exact List.mem_map.2 ⟨e, List.mem_of_find?_eq_some he, by simpa using hkey⟩

private theorem reached_subset (id : String) : store.reached id ⊆ store.ids.toFinset := by
  classical exact Finset.filter_subset ..

theorem rank_pos_of_get? {id : String} {s : Subset} (h : store.get? id = some s) :
    0 < store.rank id := by
  refine Finset.card_pos.2 ⟨id, ?_⟩
  simp only [reached, Finset.mem_filter, List.mem_toFinset]
  exact ⟨mem_ids_of_get? h, .refl⟩

theorem rank_le_size (id : String) : store.rank id ≤ store.size :=
  calc store.rank id ≤ store.ids.toFinset.card := Finset.card_le_card (reached_subset id)
    _ ≤ store.ids.length := store.ids.toFinset_card_le
    _ = store.size := List.length_map ..

/-- References lead to ids of a smaller rank. -/
theorem Acyclic.rank_lt (h : store.Acyclic) {a b : String} (hab : store.RefersTo a b) :
    store.rank b < store.rank a := by
  refine Finset.card_lt_card ((Finset.ssubset_iff_of_subset ?_).2 ⟨a, ?_, ?_⟩)
  · intro c hc
    simp only [reached, Finset.mem_filter] at hc ⊢
    exact ⟨hc.1, .head hab hc.2⟩
  · obtain ⟨s, hs, _⟩ := hab
    simp only [reached, Finset.mem_filter, List.mem_toFinset]
    exact ⟨mem_ids_of_get? hs, .refl⟩
  · intro ha
    simp only [reached, Finset.mem_filter] at ha
    exact h a (.head' hab ha.2)

/-- A number that decreases along references rules out cycles. -/
theorem acyclic_of_decreasing (level : String → Nat)
    (h : ∀ a b, store.RefersTo a b → level b < level a) : store.Acyclic := by
  have hlt (a b) (hab : TransGen store.RefersTo a b) : level b < level a := by
    induction hab with
    | single hab => exact h _ _ hab
    | tail _ hbc ih => exact (h _ _ hbc).trans ih
  exact fun id hid => Nat.lt_irrefl _ (hlt id id hid)

/-- What holds for the subset of an id: its condition is read with the subsets that it refers to
at their own meaning. -/
noncomputable def Stands (store : SubsetStore) (leaf : Leaf → Prop) : String → Prop :=
  (measure store.rank).wf.fix fun id stands =>
    ∃ s, store.get? id = some s ∧ s.query.condition.Holds leaf fun other =>
      ∃ h : store.rank other < store.rank id, stands other h

/-- In a store without cycles a subset stands for the condition stored under its id, and an id
that is not stored for none. -/
theorem Acyclic.stands_iff (h : store.Acyclic) (leaf : Leaf → Prop) (id : String) :
    store.Stands leaf id ↔
      ∃ s, store.get? id = some s ∧ s.query.condition.Holds leaf (store.Stands leaf) := by
  rw [Stands, WellFounded.fix_eq]
  refine exists_congr fun s => and_congr_right fun hs => Condition.holds_congr_subset ?_
  intro other hother
  have hlt : store.rank other < store.rank id := h.rank_lt ⟨s, hs, hother⟩
  exact ⟨fun ⟨_, hstands⟩ => hstands, fun hstands => ⟨hlt, hstands⟩⟩

end SubsetStore

end CardSearch
