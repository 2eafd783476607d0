import CardSearch.Proofs.Query.Sufficiency

/-!
# The normal form of a condition

A condition in normal form is a constant, or there is no constant in it, no negation over a
condition on which it can be carried out, no junction directly inside one of its kind, and no
junction of fewer than two conditions. Simplifying gives a normal form whatever it starts from, and
it leaves alone nothing but normal forms. So a second pass changes nothing, and two negations in a
row leave no trace.

One pass is enough because the parts of the junctions fit together at every step: what a normal form
contributes to a junction can stand in it side by side, and closing such parts gives a normal form
that contributes just these parts again.
-/

namespace CardSearch

namespace Condition

/-- Whether a negation can be carried out on the condition, so that it does not stay in front. -/
def takesNegation : Condition → Bool
  | const _ | not _ | leaf (.compare ..) | leaf (.parity ..) => true
  | _ => false

inductive Reduced : Condition → Prop
  | leaf (l : Leaf) : Reduced (leaf l)
  | subset (id : String) : Reduced (subset id)
  | not {c : Condition} (inner : Reduced c) (stays : c.takesNegation = false) : Reduced (not c)
  | any {cs : List Condition} (several : 2 ≤ cs.length) (inner : ∀ c ∈ cs, Reduced c)
      (flat : ∀ c ∈ cs, ∀ ds, c ≠ any ds) : Reduced (any cs)
  | all {cs : List Condition} (several : 2 ≤ cs.length) (inner : ∀ c ∈ cs, Reduced c)
      (flat : ∀ c ∈ cs, ∀ ds, c ≠ all ds) : Reduced (all cs)

/-- A constant, or a condition with no constant in it on which nothing is left to be done. -/
def Normal (c : Condition) : Prop := (∃ b, c = const b) ∨ c.Reduced

def simplified (subsets : Dict Subset) (c : Condition) : Condition :=
  (Simplified.ofCondition subsets c).condition

theorem normal_const (b : Bool) : (const b).Normal := .inl ⟨b, rfl⟩

theorem not_reduced_const (b : Bool) : ¬ (const b).Reduced := nofun

end Condition

namespace Simplified

open Condition

variable {subsets : Dict Subset}

theorem denial_of_stays {c : Condition} (h : c.takesNegation = false) : denial c = .not c := by
  cases c with
  | leaf l => cases l <;> first | rfl | cases h
  | const b => cases h
  | not c => cases h
  | any cs => rfl
  | all cs => rfl
  | subset id => rfl

theorem normal_denial {c : Condition} (h : c.Normal) : (denial c).Normal := by
  obtain ⟨b, rfl⟩ | h := h
  · exact normal_const !b
  · by_cases hstays : c.takesNegation = false
    · rw [denial_of_stays hstays]
      exact .inr (h.not hstays)
    -- else the negation is carried out on a leaf or removes one inside
    · cases h with
      | leaf l =>
        cases l with
        | compare op p value => exact .inr (.leaf _)
        | parity which p => exact .inr (.leaf _)
        | contains p part => exact absurd rfl hstays
        | range p first firstIncluded last lastIncluded => exact absurd rfl hstays
      | not inner stays => exact .inr inner
      | subset id => exact absurd rfl hstays
      | any several inner flat => exact absurd rfl hstays
      | all several inner flat => exact absurd rfl hstays

/-- Denying a normal form twice gives it back. -/
theorem denial_denial {c : Condition} (h : c.Normal) : denial (denial c) = c := by
  obtain ⟨b, rfl⟩ | h := h
  · cases b <;> rfl
  · cases h with
    | leaf l => cases l <;> simp [denial]
    | subset id => rfl
    | not inner stays => exact denial_of_stays stays
    | any several inner flat => rfl
    | all several inner flat => rfl

namespace Junction

def Fits (j : Junction) (cs : List Condition) : Prop :=
  ∀ c ∈ cs, c.Reduced ∧ ∀ ds, c ≠ j.join ds

def merge (j : Junction) (cs : List Condition) : Condition :=
  if .const j.absorbing ∈ cs then .const j.absorbing else j.close (cs.flatMap j.parts)

theorem reduced_join_iff (j : Junction) {cs : List Condition} :
    (j.join cs).Reduced ↔ 2 ≤ cs.length ∧ j.Fits cs := by
  constructor
  · intro h
    cases j with
    | any =>
      cases h with
      | any several inner flat => exact ⟨several, fun c hc => ⟨inner c hc, flat c hc⟩⟩
    | all =>
      cases h with
      | all several inner flat => exact ⟨several, fun c hc => ⟨inner c hc, flat c hc⟩⟩
  · rintro ⟨several, hfits⟩
    cases j with
    | any => exact .any several (fun c hc => (hfits c hc).1) fun c hc => (hfits c hc).2
    | all => exact .all several (fun c hc => (hfits c hc).1) fun c hc => (hfits c hc).2

theorem parts_join (j : Junction) (cs : List Condition) : j.parts (j.join cs) = cs := by
  cases j <;> rfl

theorem parts_const (j : Junction) (b : Bool) : j.parts (.const b) = [] := by
  cases j <;> rfl

theorem parts_of_fits (j : Junction) {c : Condition} (h : c.Reduced ∧ ∀ ds, c ≠ j.join ds) :
    j.parts c = [c] := by
  obtain ⟨hreduced, hflat⟩ := h
  cases j with
  | any =>
    cases hreduced with
    | any several inner flat => exact absurd rfl (hflat _)
    | leaf l => rfl
    | subset id => rfl
    | not inner stays => rfl
    | all several inner flat => rfl
  | all =>
    cases hreduced with
    | all several inner flat => exact absurd rfl (hflat _)
    | leaf l => rfl
    | subset id => rfl
    | not inner stays => rfl
    | any several inner flat => rfl

private theorem flatMap_parts_of_fits (j : Junction) {cs : List Condition} (h : j.Fits cs) :
    cs.flatMap j.parts = cs := by
  induction cs with
  | nil => rfl
  | cons c cs ih =>
    obtain ⟨hc, hcs⟩ := List.forall_mem_cons.1 h
    rw [List.flatMap_cons, j.parts_of_fits hc, ih hcs, List.singleton_append]

theorem fits_parts (j : Junction) {c : Condition} (h : c.Normal) : j.Fits (j.parts c) := by
  obtain ⟨b, rfl⟩ | h := h
  · rw [parts_const]
    exact List.forall_mem_nil _
  · by_cases hjoin : ∃ ds, c = j.join ds
    · obtain ⟨ds, rfl⟩ := hjoin
      rw [parts_join]
      exact (j.reduced_join_iff.1 h).2
    · have hfits : c.Reduced ∧ ∀ ds, c ≠ j.join ds := ⟨h, fun ds heq => hjoin ⟨ds, heq⟩⟩
      rw [j.parts_of_fits hfits]
      exact List.forall_mem_singleton.2 hfits

theorem fits_flatMap_parts (j : Junction) {cs : List Condition} (h : ∀ c ∈ cs, c.Normal) :
    j.Fits (cs.flatMap j.parts) := by
  intro d hd
  obtain ⟨c, hc, hd⟩ := List.mem_flatMap.1 hd
  exact j.fits_parts (h c hc) d hd

theorem close_of_two_le (j : Junction) {cs : List Condition} (h : 2 ≤ cs.length) :
    j.close cs = j.join cs := by
  match cs with
  | [] => cases h
  | [c] => simp at h
  | c :: d :: cs => rfl

/-- Closing parts that fit together gives a normal form, which contributes these parts again and
does not decide the junction. -/
theorem close_of_fits (j : Junction) {cs : List Condition} (h : j.Fits cs) :
    (j.close cs).Normal ∧ j.parts (j.close cs) = cs ∧ j.close cs ≠ .const j.absorbing := by
  match cs with
  -- the constant of an empty junction is not the one that absorbs
  | [] =>
    refine ⟨normal_const _, j.parts_const _, ?_⟩
    cases j <;> nofun
  | [c] =>
    have hc := h c (by simp)
    refine ⟨.inr hc.1, j.parts_of_fits hc, ?_⟩
    rintro (rfl : c = _)
    exact not_reduced_const _ hc.1
  | c :: d :: cs =>
    have hreduced : (j.join (c :: d :: cs)).Reduced := j.reduced_join_iff.2 ⟨by simp, h⟩
    refine ⟨.inr hreduced, j.parts_join _, ?_⟩
    cases j <;> nofun

theorem merge_of_not_mem (j : Junction) {cs : List Condition} (h : .const j.absorbing ∉ cs) :
    j.merge cs = j.close (cs.flatMap j.parts) := if_neg h

private theorem normal_merge (j : Junction) {cs : List Condition} (h : ∀ c ∈ cs, c.Normal) :
    (j.merge cs).Normal := by
  rw [merge]
  split
  · exact normal_const _
  · exact (j.close_of_fits (j.fits_flatMap_parts h)).1

/-- A junction has its absorbing truth value only if one of its simplified conditions has it. -/
theorem merge_eq_absorbing_iff (j : Junction) {cs : List Condition} (h : ∀ c ∈ cs, c.Normal) :
    j.merge cs = .const j.absorbing ↔ .const j.absorbing ∈ cs := by
  constructor
  · intro heq
    by_contra hmem
    rw [j.merge_of_not_mem hmem] at heq
    exact (j.close_of_fits (j.fits_flatMap_parts h)).2.2 heq
  · exact fun hmem => if_pos hmem

theorem parts_merge (j : Junction) {cs : List Condition} (h : ∀ c ∈ cs, c.Normal)
    (hmem : .const j.absorbing ∉ cs) : j.parts (j.merge cs) = cs.flatMap j.parts := by
  rw [j.merge_of_not_mem hmem]
  exact (j.close_of_fits (j.fits_flatMap_parts h)).2.1

theorem merge_of_fits (j : Junction) {cs : List Condition} (hlength : 2 ≤ cs.length)
    (h : j.Fits cs) : j.merge cs = j.join cs := by
  have hmem : .const j.absorbing ∉ cs := fun hmem => not_reduced_const _ (h _ hmem).1
  rw [j.merge_of_not_mem hmem, j.flatMap_parts_of_fits h, j.close_of_two_le hlength]

end Junction

theorem condition_ofJunction (j : Junction) (done cs : List Condition) :
    (ofJunction subsets j done cs).condition =
      if .const j.absorbing ∈ cs.map (simplified subsets) then .const j.absorbing
      else j.close (done ++ (cs.map (simplified subsets)).flatMap j.parts) := by
  -- the first condition decides the junction, or its parts are collected before the others
  induction cs generalizing done with
  | nil => simp [ofJunction]
  | cons c cs ih =>
    rw [ofJunction, List.map_cons, List.flatMap_cons]
    by_cases hc : (ofCondition subsets c).condition = .const j.absorbing
    · have hmem : .const j.absorbing ∈ simplified subsets c :: cs.map (simplified subsets) :=
        List.mem_cons.2 (.inl hc.symm)
      rw [if_pos hc, if_pos hmem]
    · have hiff : .const j.absorbing ∈ simplified subsets c :: cs.map (simplified subsets) ↔
          .const j.absorbing ∈ cs.map (simplified subsets) := by
        rw [List.mem_cons]
        exact or_iff_right (Ne.symm hc)
      rw [if_neg hc, ih, List.append_assoc]
      simp only [hiff]
      rfl

end Simplified

namespace Condition

open Simplified

variable {subsets : Dict Subset}

@[simp] theorem simplified_const (b : Bool) : (const b).simplified subsets = const b := by
  rw [simplified, ofCondition]

@[simp] theorem simplified_leaf (l : Leaf) : (leaf l).simplified subsets = leaf l := by
  rw [simplified, ofCondition]

@[simp] theorem simplified_subset (id : String) :
    (subset id).simplified subsets = subset id := by
  rw [simplified, ofCondition]
  split <;> rfl

@[simp] theorem simplified_not (c : Condition) :
    (not c).simplified subsets = denial (c.simplified subsets) := by
  rw [simplified, ofCondition, simplified]

@[simp] theorem simplified_any (cs : List Condition) :
    (any cs).simplified subsets = Junction.any.merge (cs.map (simplified subsets)) := by
  rw [simplified, ofCondition, condition_ofJunction, List.nil_append, Junction.merge]

@[simp] theorem simplified_all (cs : List Condition) :
    (all cs).simplified subsets = Junction.all.merge (cs.map (simplified subsets)) := by
  rw [simplified, ofCondition, condition_ofJunction, List.nil_append, Junction.merge]

theorem normal_simplified (subsets : Dict Subset) (c : Condition) :
    (c.simplified subsets).Normal := by
  induction c with
  | const b =>
    rw [simplified_const]
    exact normal_const b
  | leaf l =>
    rw [simplified_leaf]
    exact .inr (.leaf l)
  | subset id =>
    rw [simplified_subset]
    exact .inr (.subset id)
  | not c ih =>
    rw [simplified_not]
    exact normal_denial ih
  | any cs ih =>
    rw [simplified_any]
    exact Junction.any.normal_merge (by simpa using ih)
  | all cs ih =>
    rw [simplified_all]
    exact Junction.all.normal_merge (by simpa using ih)

private theorem Reduced.simplified_eq {c : Condition} (h : c.Reduced) :
    c.simplified subsets = c := by
  induction h with
  | leaf l => exact simplified_leaf l
  | subset id => exact simplified_subset id
  | not inner stays ih => rw [simplified_not, ih, denial_of_stays stays]
  | any several inner flat ih =>
    rw [simplified_any, List.map_congr_left ih, List.map_id']
    exact Junction.any.merge_of_fits several fun c hc => ⟨inner c hc, flat c hc⟩
  | all several inner flat ih =>
    rw [simplified_all, List.map_congr_left ih, List.map_id']
    exact Junction.all.merge_of_fits several fun c hc => ⟨inner c hc, flat c hc⟩

/-- The normal forms are the conditions that simplifying leaves alone. -/
theorem normal_iff (subsets : Dict Subset) (c : Condition) :
    c.Normal ↔ c.simplified subsets = c := by
  constructor
  · rintro (⟨b, rfl⟩ | h)
    · exact simplified_const b
    · exact h.simplified_eq
  · exact fun h => h ▸ normal_simplified subsets c

theorem simplified_simplified (subsets : Dict Subset) (c : Condition) :
    (c.simplified subsets).simplified subsets = c.simplified subsets :=
  (normal_iff subsets _).1 (normal_simplified subsets c)

end Condition

namespace Simplified

variable {subsets : Dict Subset} {ps : PropertySet} {p : Property}

private theorem mem_of_mem_properties_ofJunction {j : Junction} {done cs : List Condition}
    (ih : ∀ c ∈ cs, p ∈ (ofCondition subsets c).properties → p ∈ ps)
    (hp : p ∈ (ofJunction subsets j done cs).properties) : p ∈ ps := by
  induction cs generalizing done with
  | nil => simp [ofJunction] at hp
  | cons c cs ihcs =>
    obtain ⟨hfirst, hrest⟩ := List.forall_mem_cons.1 ih
    rw [ofJunction] at hp
    split at hp
    · exact hfirst hp
    · exact (PropertySet.mem_union.1 hp).elim hfirst (ihcs hrest)

/-- Properties that cover what a condition reads contain all that simplifying it meets. -/
theorem mem_of_mem_properties {c : Condition} (h : c.CoveredBy subsets ps)
    (hp : p ∈ (ofCondition subsets c).properties) : p ∈ ps := by
  induction c with
  | const b => simp [ofCondition] at hp
  | leaf l =>
    rw [ofCondition, PropertySet.mem_singleton] at hp
    exact hp ▸ Condition.coveredBy_leaf.1 h
  | subset id =>
    rw [ofCondition] at hp
    split at hp
    · next s hs => exact h.subset id (by simp) s hs p hp
    · simp at hp
  | not c ih =>
    rw [ofCondition] at hp
    exact ih (Condition.coveredBy_not.1 h) hp
  | any cs ih =>
    rw [ofCondition] at hp
    exact mem_of_mem_properties_ofJunction
      (fun c hc => ih c hc (Condition.coveredBy_any.1 h c hc)) hp
  | all cs ih =>
    rw [ofCondition] at hp
    exact mem_of_mem_properties_ofJunction
      (fun c hc => ih c hc (Condition.coveredBy_all.1 h c hc)) hp

end Simplified

namespace Query

/-- Simplifying gives a query whose condition is in normal form and leaves just these conditions as
they are. So simplifying again changes neither the condition nor the properties, and two negations
in front of a condition change nothing. -/
theorem simplify_normalizes (subsets : Dict Subset) (q : Query) :
    (q.simplify subsets).condition.Normal ∧
    (q.condition.Normal ↔ (q.simplify subsets).condition = q.condition) ∧
    (q.simplify subsets).simplify subsets = q.simplify subsets ∧
    simplify subsets ⟨q.properties, .not (.not q.condition)⟩ = q.simplify subsets := by
  refine ⟨q.condition.normal_simplified subsets, q.condition.normal_iff subsets, ?_, ?_⟩
  · -- a second pass meets no property beyond those that the first has noted
    have hproperties : (q.simplify subsets).properties ∪
        (Simplified.ofCondition subsets (q.simplify subsets).condition).properties =
          (q.simplify subsets).properties := by
      ext p
      rw [PropertySet.mem_union]
      exact or_iff_left_of_imp (Simplified.mem_of_mem_properties (q.coveredBy_simplify subsets))
    have hcondition := q.condition.simplified_simplified subsets
    conv => lhs; rw [simplify]
    rw [Query.mk.injEq]
    exact ⟨hproperties, hcondition⟩
  · have hdenial := Simplified.denial_denial (q.condition.normal_simplified subsets)
    simp only [simplify, Simplified.ofCondition]
    rw [Query.mk.injEq]
    exact ⟨rfl, hdenial⟩

end Query

end CardSearch
