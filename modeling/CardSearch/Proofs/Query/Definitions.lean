import CardSearch.Command.Run
import CardSearch.Proofs.Evaluation.Unrolling
import CardSearch.Proofs.Query.SubsetNames
import CardSearch.Proofs.Query.Typed

/-!
# Subsets that are defined in order

A subset is defined by a name and a text, which is read and simplified over the subsets that are
stored at that moment. A text refers to a subset by its name, so it only refers to what is stored
already; simplifying adds no references; and a store refuses a definition whose id or name is taken.
So references lead back in the order of definition and never come round, and an evaluation over
subsets that were defined in order comes to an end.
-/

namespace CardSearch

/-- A subset that is to be created from a text. Where it is defined by its name alone, the id was
made for it. -/
structure SubsetDefinition where
  id : String
  name : String
  text : String
  deriving DecidableEq, Repr

/-- The subset of a definition, when its text is read over some store. -/
def SubsetDefinition.subset (d : SubsetDefinition) (store : SubsetStore) : Subset :=
  ⟨d.id, d.name, (Query.read store.byName d.text).simplify store.byId⟩

namespace Simplified

variable {subsets : Dict Subset} {id : String}

private theorem exists_of_mem_missing_ofJunction {j : Junction} {done cs : List Condition}
    (h : id ∈ (ofJunction subsets j done cs).missing) :
    ∃ c ∈ cs, id ∈ (ofCondition subsets c).missing := by
  induction cs generalizing done with
  | nil =>
    rw [ofJunction] at h
    cases h
  | cons c cs ih =>
    rw [ofJunction] at h
    dsimp only at h
    split at h
    · exact ⟨c, List.mem_cons_self, h⟩
    · rcases List.mem_append.1 h with h | h
      · exact ⟨c, List.mem_cons_self, h⟩
      · obtain ⟨d, hd, hmissing⟩ := ih h
        exact ⟨d, List.mem_cons_of_mem c hd, hmissing⟩

/-- Only what a condition refers to and what is not stored is looked for in vain. -/
theorem of_mem_missing {c : Condition} (h : id ∈ (ofCondition subsets c).missing) :
    id ∈ c.references ∧ subsets.get? id = none := by
  induction c with
  | const b =>
    rw [ofCondition] at h
    cases h
  | leaf l =>
    rw [ofCondition] at h
    cases h
  | subset name =>
    rw [ofCondition] at h
    split at h
    · cases h
    · next hnone =>
      obtain rfl := List.mem_singleton.1 h
      exact ⟨List.mem_singleton_self _, hnone⟩
  | not c ih =>
    rw [ofCondition] at h
    exact ih h
  | any cs ih =>
    rw [ofCondition] at h
    obtain ⟨c, hc, h⟩ := exists_of_mem_missing_ofJunction h
    obtain ⟨href, hnone⟩ := ih c hc h
    exact ⟨Condition.mem_references_any.2 ⟨c, hc, href⟩, hnone⟩
  | all cs ih =>
    rw [ofCondition] at h
    obtain ⟨c, hc, h⟩ := exists_of_mem_missing_ofJunction h
    obtain ⟨href, hnone⟩ := ih c hc h
    exact ⟨Condition.mem_references_all.2 ⟨c, hc, href⟩, hnone⟩

end Simplified

namespace SubsetStore

/-- The store after a definition; one whose id or name is taken leaves it as it is. -/
def define (store : SubsetStore) (d : SubsetDefinition) : SubsetStore :=
  store.act (.create (d.subset store))

/-- The store after definitions in turn, when nothing was stored before. -/
def defineAll (definitions : List SubsetDefinition) : SubsetStore := definitions.foldl define ∅

def Stores (store : SubsetStore) (id : String) : Prop := ∃ s, store.get? id = some s

variable {store : SubsetStore} {d : SubsetDefinition} {id : String} {s : Subset}
  {earlier definitions : List SubsetDefinition}

theorem Filed.typable (h : store.Filed) :
    Condition.Typable store.byName (Condition.RefersWithin store.Stores) where
  toHereditary := Condition.hereditary_refersWithin store.Stores
  leaf l _ := Condition.refersWithin_leaf store.Stores l
  subset name s hs := by
    have hstored : store.Stores s.id := ⟨s, h.get?_id hs⟩
    simpa [Condition.RefersWithin] using hstored

theorem Filed.refersWithin_read (h : store.Filed) (text : String) :
    (Query.read store.byName text).condition.RefersWithin store.Stores :=
  h.typable.read text

theorem Filed.refersWithin_simplify (h : store.Filed) (text : String) :
    ((Query.read store.byName text).simplify store.byId).condition.RefersWithin store.Stores :=
  Simplified.refersWithin_ofCondition store.byId (h.refersWithin_read text)

/-- Simplifying what a text says over the store that it was read over looks for nothing in vain. -/
theorem Filed.missingSubsets_read (h : store.Filed) (text : String) :
    Query.missingSubsets store.byId (Query.read store.byName text) = [] := by
  refine List.eq_nil_iff_forall_not_mem.2 fun id hid => ?_
  obtain ⟨href, hnone⟩ := Simplified.of_mem_missing hid
  obtain ⟨s, hs⟩ := h.refersWithin_read text id href
  exact absurd (hs.symm.trans hnone) (Option.some_ne_none s)

/-- What is stored stays, whatever is defined. -/
theorem get?_define (h : store.get? id = some s) (d : SubsetDefinition) :
    (store.define d).get? id = some s := by
  by_cases hid : d.id = id
  · obtain ⟨hadmits, -⟩ | ⟨-, hact⟩ := act_cases store (.create (d.subset store))
    · have hfree : store.get? d.id = none := hadmits.1
      rw [hid, h] at hfree
      cases hfree
    · rw [define, hact, h]
  · exact (@get?_id_act store (.create (d.subset store)) id hid).trans h

/-- What is stored was stored before, or it is the subset of the definition, under an id that was
free. -/
theorem get?_of_define (h : (store.define d).get? id = some s) :
    store.get? id = some s ∨ store.get? id = none ∧ d.id = id ∧ s = d.subset store := by
  obtain ⟨hadmits, hact⟩ | ⟨-, hact⟩ := act_cases store (.create (d.subset store))
  · have hget := get?_id_update store (d.subset store) id
    rw [define, hact, get?, SubsetCall.subset, hget] at h
    split at h
    · next hid =>
      cases h
      exact .inr ⟨hid ▸ hadmits.1, hid, rfl⟩
    · exact .inl h
  · rw [define, hact] at h
    exact .inl h

/-- From what was stored before, references lead where they led. -/
theorem refersTo_of_define (hclosed : store.Closed) {a b : String}
    (h : (store.define d).RefersTo a b) (ha : store.Stores a) :
    store.RefersTo a b ∧ store.Stores b := by
  obtain ⟨s, hs, hb⟩ := h
  obtain ⟨t, ht⟩ := ha
  obtain rfl := Option.some.inj (hs.symm.trans (get?_define ht d))
  exact ⟨⟨s, ht, hb⟩, hclosed a s ht b hb⟩

open Relation in
/-- A definition closes no cycle: it refers to what is stored, which does not refer to it. -/
theorem Acyclic.define (h : store.Acyclic) (hfiled : store.Filed) (hclosed : store.Closed)
    (d : SubsetDefinition) : (store.define d).Acyclic := by
  have hkept {a b : String} (hab : TransGen (store.define d).RefersTo a b) (ha : store.Stores a) :
      TransGen store.RefersTo a b ∧ store.Stores b := by
    induction hab with
    | single hab =>
      obtain ⟨hab, hb⟩ := refersTo_of_define hclosed hab ha
      exact ⟨.single hab, hb⟩
    | tail _ hbc ih =>
      obtain ⟨hab, hb⟩ := ih
      obtain ⟨hbc, hc⟩ := refersTo_of_define hclosed hbc hb
      exact ⟨hab.tail hbc, hc⟩
  intro id hcycle
  obtain ⟨next, ⟨s, hs, hnext⟩, hback⟩ := TransGen.head'_iff.1 hcycle
  obtain hold | ⟨hfree, -, rfl⟩ := get?_of_define hs
  · exact h id (hkept hcycle ⟨s, hold⟩).1
  · -- the new subset refers to an old one, from which no way leads to the new one
    have hstored : store.Stores next := hfiled.refersWithin_simplify d.text next hnext
    have hid : store.Stores id := by
      obtain rfl | hback := reflTransGen_iff_eq_or_transGen.1 hback
      · exact hstored
      · exact (hkept hback hstored).2
    obtain ⟨t, ht⟩ := hid
    cases hfree.symm.trans ht

theorem defineAll_append_singleton (definitions : List SubsetDefinition) (d : SubsetDefinition) :
    defineAll (definitions ++ [d]) = (defineAll definitions).define d := by
  rw [defineAll, List.foldl_append]
  rfl

theorem filed_defineAll (definitions : List SubsetDefinition) : (defineAll definitions).Filed := by
  induction definitions using List.reverseRecOn with
  | nil => exact filed_empty
  | append_singleton definitions d ih =>
    rw [defineAll_append_singleton]
    exact ih.act _

private theorem get?_defineAll_append (h : (defineAll earlier).get? id = some s)
    (later : List SubsetDefinition) : (defineAll (earlier ++ later)).get? id = some s := by
  induction later using List.reverseRecOn with
  | nil => rwa [List.append_nil]
  | append_singleton later d ih =>
    rw [← List.append_assoc, defineAll_append_singleton]
    exact get?_define ih d

/-- Every stored subset comes from a definition, read over what was stored by the ones before. -/
theorem exists_definition (h : (defineAll definitions).get? id = some s) :
    ∃ earlier d later, definitions = earlier ++ d :: later ∧ d.id = id ∧
      s = d.subset (defineAll earlier) ∧ (defineAll earlier).get? id = none := by
  induction definitions using List.reverseRecOn with
  | nil => cases h
  | append_singleton definitions last ih =>
    rw [defineAll_append_singleton] at h
    obtain hold | ⟨hfree, hid, hs⟩ := get?_of_define h
    · obtain ⟨earlier, d, later, rfl, hd⟩ := ih hold
      exact ⟨earlier, d, later ++ [last], by simp, hd⟩
    · exact ⟨definitions, last, [], rfl, hid, hs, hfree⟩

/-- What a stored query refers to was stored before it, and is stored still. -/
theorem references_stored (h : (defineAll definitions).get? id = some s) :
    ∃ earlier d later, definitions = earlier ++ d :: later ∧ d.id = id ∧
      s = d.subset (defineAll earlier) ∧ (defineAll earlier).get? id = none ∧
      ∀ other ∈ s.query.condition.references, ∃ t, (defineAll earlier).get? other = some t ∧
        (defineAll definitions).get? other = some t := by
  obtain ⟨earlier, d, later, rfl, hid, rfl, hfree⟩ := exists_definition h
  refine ⟨earlier, d, later, rfl, hid, rfl, hfree, fun other hother => ?_⟩
  obtain ⟨t, ht⟩ := (filed_defineAll earlier).refersWithin_simplify d.text other hother
  exact ⟨t, ht, get?_defineAll_append ht _⟩

theorem closed_defineAll (definitions : List SubsetDefinition) : (defineAll definitions).Closed := by
  intro id s hs other hother
  obtain ⟨_, _, _, _, _, _, _, hrefs⟩ := references_stored hs
  obtain ⟨t, -, ht⟩ := hrefs other hother
  exact ⟨t, ht⟩

private theorem acyclic_defineAll (definitions : List SubsetDefinition) :
    (defineAll definitions).Acyclic := by
  induction definitions using List.reverseRecOn with
  | nil => exact acyclic_of_decreasing (fun _ => 0) fun a b ⟨s, hs, _⟩ => nomatch hs
  | append_singleton definitions d ih =>
    rw [defineAll_append_singleton]
    exact ih.define (filed_defineAll definitions) (closed_defineAll definitions) d

theorem exists_defineAll_of_defineSubsets {around : Surroundings} {texts : List String}
    {stored : SubsetStore}
    (h : (Command.defineSubsets around (defineAll earlier) texts).2 = .ok stored) :
    ∃ definitions, stored = defineAll definitions := by
  induction texts generalizing earlier with
  | nil =>
    cases h
    exact ⟨earlier, rfl⟩
  | cons text texts ih =>
    rw [Command.defineSubsets] at h
    split at h
    · cases h
    · next name query _ =>
      let d : SubsetDefinition := ⟨around.freshId (defineAll earlier).size, name, query⟩
      dsimp only at h
      split at h
      · cases h
      · next next hcreate =>
        have hdefine : next = defineAll (earlier ++ [d]) := by
          rw [defineAll_append_singleton, define, act]
          change (defineAll earlier).create (d.subset (defineAll earlier)) = .ok next at hcreate
          rw [hcreate]
          rfl
        exact ih (hdefine ▸ h)

/-- Whatever subsets are defined in turn, each id in a stored query belongs to a subset that was
stored before it and has stayed. So no evaluation can enter conditions without end; and the conditions
of a text, as it is read and as it is simplified, are evaluated as the trees without references that
are made from them by writing out what is stored. -/
theorem definitions_refer_back (definitions : List SubsetDefinition) :
    (∀ id s, (defineAll definitions).get? id = some s →
      ∃ earlier d later, definitions = earlier ++ d :: later ∧ d.id = id ∧
        s = d.subset (defineAll earlier) ∧ (defineAll earlier).get? id = none ∧
        ∀ other ∈ s.query.condition.references, ∃ t, (defineAll earlier).get? other = some t ∧
          (defineAll definitions).get? other = some t) ∧
    (defineAll definitions).Acyclic ∧
    (WellFounded fun next c => (defineAll definitions).Enters c next) ∧
    (defineAll definitions).Unrolls (defineAll definitions).tree ∧
    ∀ text c, c = (Query.read (defineAll definitions).byName text).condition ∨
        c = ((Query.read (defineAll definitions).byName text).simplify
          (defineAll definitions).byId).condition →
      (c.replace (defineAll definitions).tree).references = [] ∧
      ∀ (ev : Evaluator) (catalog : Catalog) (record : Nat),
        ev.evaluate ⟨catalog, defineAll definitions, c⟩ record =
          ev.evaluate ⟨catalog, ∅, c.replace (defineAll definitions).tree⟩ record := by
  have hfiled := filed_defineAll definitions
  have hclosed := closed_defineAll definitions
  have hacyclic := acyclic_defineAll definitions
  refine ⟨fun id s => references_stored, hacyclic, hacyclic.wellFounded_enters,
    hacyclic.unrolls_tree, fun text c hc => ⟨?_, fun ev catalog record => ?_⟩⟩
  · have hrefs : c.RefersWithin (defineAll definitions).Stores := by
      rcases hc with rfl | rfl
      · exact hfiled.refersWithin_read text
      · exact hfiled.refersWithin_simplify text
    rw [List.eq_nil_iff_forall_not_mem]
    intro id hid
    obtain ⟨other, hother, hin⟩ := Condition.mem_references_replace.1 hid
    rw [hacyclic.references_tree hclosed (hrefs other hother)] at hin
    cases hin
  · exact ev.evaluate_tree hacyclic catalog c record

/-- The second subset refers to the first one, and the third definition is refused: its name is taken,
though its text would have referred to the subset that has it. -/
example : ((defineAll [⟨"1", "big", "cmc>5"⟩, ⟨"2", "bigElf", "t:elf ss:big"⟩,
    ⟨"3", "big", "ss:bigElf"⟩]).byId.entries.map fun e => (e.1, e.2.query.condition.references)) =
      [("1", []), ("2", ["1"])] := by cbv

end SubsetStore

end CardSearch
