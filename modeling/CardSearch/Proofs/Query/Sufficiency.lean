import CardSearch.Proofs.Catalog.Columns
import CardSearch.Proofs.Evaluation.Locality
import CardSearch.Proofs.Evaluation.Records
import CardSearch.Proofs.Query.Leaves

/-!
# The properties of a query are enough

Simplifying a query collects the properties that its condition reads. What is found depends on them
alone: two catalogs that agree on these properties give the same records with the same versions,
whatever else they hold. A catalog may know the number of versions of a record where the other
takes it to have one; this can only be where no property of versions is read, and then all versions
fare alike, so that the first one decides.
-/

namespace CardSearch

namespace Condition

/-- The properties cover what a condition reads: in its leaves, and in the stored subsets that it
refers to, as far as the properties of these tell. -/
structure CoveredBy (subsets : Dict Subset) (ps : PropertySet) (c : Condition) : Prop where
  leaf : ∀ l ∈ c.leaves, l.property ∈ ps
  subset : ∀ id ∈ c.references, ∀ s, subsets.get? id = some s → ∀ p ∈ s.query.properties, p ∈ ps

variable {subsets : Dict Subset} {ps ps' : PropertySet}

theorem CoveredBy.mono {c : Condition} (h : c.CoveredBy subsets ps) (hps : ∀ p ∈ ps, p ∈ ps') :
    c.CoveredBy subsets ps' :=
  ⟨fun l hl => hps _ (h.leaf l hl), fun id hid s hs p hp => hps p (h.subset id hid s hs p hp)⟩

@[simp] theorem coveredBy_const (b : Bool) : (const b).CoveredBy subsets ps := by
  constructor <;> simp [references]

@[simp] theorem coveredBy_not {c : Condition} :
    (not c).CoveredBy subsets ps ↔ c.CoveredBy subsets ps := by
  constructor
  · exact fun h => ⟨by simpa using h.leaf, by simpa using h.subset⟩
  · exact fun h => ⟨by simpa using h.leaf, by simpa using h.subset⟩

@[simp] theorem coveredBy_any {cs : List Condition} :
    (any cs).CoveredBy subsets ps ↔ ∀ c ∈ cs, c.CoveredBy subsets ps := by
  constructor
  · exact fun h c hc => ⟨fun l hl => h.leaf l (mem_leaves_any.2 ⟨c, hc, hl⟩),
      fun id hid => h.subset id (mem_references_any.2 ⟨c, hc, hid⟩)⟩
  · refine fun h => ⟨fun l hl => ?_, fun id hid => ?_⟩
    · obtain ⟨c, hc, hl⟩ := mem_leaves_any.1 hl
      exact (h c hc).leaf l hl
    · obtain ⟨c, hc, hid⟩ := mem_references_any.1 hid
      exact (h c hc).subset id hid

@[simp] theorem coveredBy_all {cs : List Condition} :
    (all cs).CoveredBy subsets ps ↔ ∀ c ∈ cs, c.CoveredBy subsets ps := by
  constructor
  · exact fun h c hc => ⟨fun l hl => h.leaf l (mem_leaves_all.2 ⟨c, hc, hl⟩),
      fun id hid => h.subset id (mem_references_all.2 ⟨c, hc, hid⟩)⟩
  · refine fun h => ⟨fun l hl => ?_, fun id hid => ?_⟩
    · obtain ⟨c, hc, hl⟩ := mem_leaves_all.1 hl
      exact (h c hc).leaf l hl
    · obtain ⟨c, hc, hid⟩ := mem_references_all.1 hid
      exact (h c hc).subset id hid

@[simp] theorem coveredBy_leaf {l : Leaf} :
    (Condition.leaf l).CoveredBy subsets ps ↔ l.property ∈ ps := by
  constructor
  · exact fun h => h.leaf l (by simp)
  · exact fun h => ⟨by simpa using h, by simp [references]⟩

private theorem coveredBy_subset {id : String} (h : ∀ s, subsets.get? id = some s →
    ∀ p ∈ s.query.properties, p ∈ ps) : (Condition.subset id).CoveredBy subsets ps :=
  ⟨by simp, by simpa using h⟩

end Condition

namespace Simplified

open Condition

variable {subsets : Dict Subset} {ps : PropertySet}

theorem hereditary_coveredBy : Hereditary (CoveredBy subsets ps) where
  const := coveredBy_const
  not := coveredBy_not
  any := coveredBy_any
  all := coveredBy_all

theorem coveredBy_denied {l l' : Leaf} (hl : l.denied? = some l')
    (h : (Condition.leaf l).CoveredBy subsets ps) : (Condition.leaf l').CoveredBy subsets ps := by
  rw [coveredBy_leaf] at h ⊢
  rwa [Leaf.property_of_denied? hl]

/-- Conditions that come after one which decides the junction are not looked at, but nothing is left
of them either. -/
theorem coveredBy_ofJunction (ps : PropertySet) {j : Junction} {done cs : List Condition}
    (hdone : ∀ c ∈ done, c.CoveredBy subsets ps)
    (ih : ∀ c ∈ cs, (ofCondition subsets c).condition.CoveredBy subsets
      (ofCondition subsets c).properties) :
    (ofJunction subsets j done cs).condition.CoveredBy subsets
      (ps ∪ (ofJunction subsets j done cs).properties) := by
  induction cs generalizing done ps with
  | nil =>
    rw [ofJunction]
    exact (hereditary_coveredBy.close j hdone).mono (by simp)
  | cons c cs ihcs =>
    rw [ofJunction]
    split
    · simp
    · have hfirst := hereditary_coveredBy.parts j (ih c (by simp))
      have hboth : ∀ d ∈ done ++ j.parts (ofCondition subsets c).condition,
          d.CoveredBy subsets (ps ∪ (ofCondition subsets c).properties) := fun d hd =>
        (List.mem_append.1 hd).elim (fun hd => (hdone d hd).mono (by simp_all))
          fun hd => (hfirst d hd).mono (by simp_all)
      exact (ihcs _ hboth fun d hd => ih d (by simp [hd])).mono (by simp [or_assoc])

/-- The properties met on the way cover what the simplified condition reads. -/
theorem coveredBy_ofCondition (subsets : Dict Subset) (c : Condition) :
    (ofCondition subsets c).condition.CoveredBy subsets (ofCondition subsets c).properties := by
  induction c with
  | const b =>
    rw [ofCondition]
    exact coveredBy_const b
  | leaf l =>
    rw [ofCondition]
    simp
  | subset id =>
    rw [ofCondition]
    split
    · next s hs => exact coveredBy_subset fun s' hs' p hp => by simp_all
    · next hnone => exact coveredBy_subset fun s hs => by simp_all
  | not c ih =>
    rw [ofCondition]
    exact hereditary_coveredBy.denial (fun _ _ => coveredBy_denied) ih
  | any cs ih =>
    rw [ofCondition]
    exact (coveredBy_ofJunction ∅ (List.forall_mem_nil _) ih).mono (by simp)
  | all cs ih =>
    rw [ofCondition]
    exact (coveredBy_ofJunction ∅ (List.forall_mem_nil _) ih).mono (by simp)

end Simplified

namespace SubsetStore

/-- The properties of each stored query are all that its condition reads, in a leaf of its own or of
a subset that is reached from it. -/
def Complete (store : SubsetStore) : Prop :=
  ∀ id s, store.get? id = some s → ∀ l, store.Consults s.query.condition l →
    l.property ∈ s.query.properties

/-- Where the stored queries have all their properties, properties that cover a condition contain
those of all leaves that are consulted for it. -/
theorem Complete.property_mem {store : SubsetStore} (h : store.Complete) {ps : PropertySet}
    {c : Condition} (hc : c.CoveredBy store.byId ps) {l : Leaf} (hl : store.Consults c l) :
    l.property ∈ ps := by
  obtain hl | ⟨id, hid, other, s, hreached, hs, hl⟩ := hl
  · exact hc.leaf l hl
  · obtain rfl | ⟨next, ⟨stored, hstored, hnext⟩, hreached⟩ := hreached.cases_head
    · exact hc.subset id hid s hs _ (h id s hs l (.inl hl))
    · exact hc.subset id hid stored hstored _
        (h id stored hstored l (.inr ⟨next, hnext, other, s, hreached, hs, hl⟩))

end SubsetStore

theorem Query.coveredBy_simplify (subsets : Dict Subset) (q : Query) :
    (q.simplify subsets).condition.CoveredBy subsets (q.simplify subsets).properties :=
  (Simplified.coveredBy_ofCondition subsets q.condition).mono (by simp [simplify]; tauto)

namespace Catalog

variable {c c' : Catalog}

/-- What a record holds for a property follows from what it holds for its source. -/
theorem Reachable.get_eq (h : c.Reachable) (record : Nat) (q : Property) :
    c.get record q = q.valueOf (c.get record q.source) := by
  unfold get
  rw [h.columns_get? q]
  cases c.columns.get? q.source with
  | none => exact q.valueOf_missing.symm
  | some column => exact q.getElem?_columnOf column record

def Lists (c : Catalog) (record versions : Nat) : Prop :=
  ∀ p ∈ Property.perVersion, c.isLoaded p = true →
    (c.get record p).isList = true ∧ (c.get record p).length = versions

variable {record n : Nat}

private theorem isLoaded_of_isList {p : Property} (h : (c.get record p).isList = true) :
    c.isLoaded p = true := by
  unfold get at h
  unfold isLoaded
  cases hp : c.columns.get? p with
  | none =>
    rw [hp] at h
    cases h
  | some column => rfl

theorem Lists.eq_of_versionCount? (h : c.Lists record n) {m : Nat}
    (hm : c.versionCount? record = some m) : m = n := by
  obtain ⟨vs, hvs, rfl⟩ := Option.map_eq_some_iff.1 hm
  obtain ⟨p, hp, rfl⟩ := List.mem_map.1 (List.mem_of_find?_eq_some hvs)
  exact (h p hp (isLoaded_of_isList (List.find?_some hvs))).2

/-- There is at least one version, whether their number is known or not. -/
theorem Lists.versionCount_pos (h : c.Lists record n) (hn : 0 < n) :
    0 < (c.versionCount? record).getD 1 := by
  cases hcount : c.versionCount? record with
  | none => exact Nat.one_pos
  | some m => exact h.eq_of_versionCount? hcount ▸ hn

/-- If a property of versions is loaded, the number of versions is known. -/
theorem Lists.versionCount?_eq (h : c.Lists record n) {p : Property} (hp : p ∈ Property.perVersion)
    (hloaded : c.isLoaded p = true) : c.versionCount? record = some n := by
  cases hcount : c.versionCount? record with
  | none =>
    have hnone := List.find?_eq_none.1 (Option.map_eq_none_iff.1 hcount) _
      (List.mem_map.2 ⟨p, hp, rfl⟩)
    exact absurd (h p hp hloaded).1 hnone
  | some m => rw [h.eq_of_versionCount? hcount]

/-- Two catalogs of equal length hold the sources of some properties, with equal values; if being a
reprint is among the properties, each has some property of versions. In both, every property of
versions that is loaded lists as many versions of a record. -/
structure AgreeOn (ps : PropertySet) (c c' : Catalog) : Prop where
  length_eq : c.length? = c'.length?
  loaded : ∀ p ∈ ps, p ≠ .reprint → c.isLoaded p.source = true ∧ c'.isLoaded p.source = true
  get_eq : ∀ p ∈ ps, p ≠ .reprint → ∀ record < c.length?.getD 0,
    c.get record p.source = c'.get record p.source
  reprint : .reprint ∈ ps → (∃ p ∈ Property.perVersion, c.isLoaded p = true) ∧
    ∃ p ∈ Property.perVersion, c'.isLoaded p = true
  lists : ∀ record < c.length?.getD 0, ∃ n > 0, c.Lists record n ∧ c'.Lists record n

namespace AgreeOn

variable {ps : PropertySet} {p : Property}

private theorem get_eq_of_mem (h : AgreeOn ps c c') (hc : c.Reachable) (hc' : c'.Reachable)
    (hp : p ∈ ps) (hreprint : p ≠ .reprint) (hrecord : record < c.length?.getD 0) :
    c.get record p = c'.get record p := by
  rw [hc.get_eq, hc'.get_eq, h.get_eq p hp hreprint record hrecord]

private theorem getForVersion_eq (h : AgreeOn ps c c') (hc : c.Reachable) (hc' : c'.Reachable)
    (hp : p ∈ ps) (hrecord : record < c.length?.getD 0) (version : Nat) :
    c.getForVersion record version p = c'.getForVersion record version p := by
  unfold getForVersion
  by_cases hreprint : p = .reprint
  · simp [hreprint]
  · rw [h.get_eq_of_mem hc hc' hp hreprint hrecord]

/-- A property of versions among the properties makes the number of versions known. -/
theorem versionCount?_eq (h : AgreeOn ps c c') (hp : p ∈ ps) (hversions : p.isPerVersion = true)
    (hrecord : record < c.length?.getD 0) : c.versionCount? record = c'.versionCount? record := by
  obtain ⟨n, -, hlists, hlists'⟩ := h.lists record hrecord
  have hmem : p ∈ Property.perVersion := by simpa [Property.isPerVersion] using hversions
  by_cases hreprint : p = .reprint
  · obtain ⟨⟨r, hr, hloaded⟩, r', hr', hloaded'⟩ := h.reprint (hreprint ▸ hp)
    rw [hlists.versionCount?_eq hr hloaded, hlists'.versionCount?_eq hr' hloaded']
  · obtain ⟨hloaded, hloaded'⟩ := h.loaded p hp hreprint
    have hsource : p.source = p := by
      cases p <;> first | rfl | exact absurd hversions (by decide)
    rw [hsource] at hloaded hloaded'
    rw [hlists.versionCount?_eq hmem hloaded, hlists'.versionCount?_eq hmem hloaded']

end AgreeOn

end Catalog

/-- Two evaluations that find the versions of which the same holds have the same first version, if
there are as many versions, or if the same holds of all versions and there are any. -/
theorem Evaluator.Finds.head?_eq {ctx ctx' : EvalContext} {record : Nat}
    {versions versions' : List Nat} (h : Finds ctx record versions) (h' : Finds ctx' record versions')
    {leaf leaf' : Nat → Leaf → Prop} (hreads : ∀ v, ctx.Reads record v (leaf v))
    (hreads' : ∀ v, ctx'.Reads record v (leaf' v))
    (hsame : ∀ v, ctx.Satisfied (leaf v) ↔ ctx'.Satisfied (leaf' v))
    (hcount : ctx.versionCount record = ctx'.versionCount record ∨
      0 < ctx.versionCount record ∧ 0 < ctx'.versionCount record ∧
        ∀ v, ctx.Satisfied (leaf v) ↔ ctx.Satisfied (leaf 0)) :
    versions.head? = versions'.head? := by
  have hmem (v : Nat) := h.2 v _ (hreads v)
  have hmem' (v : Nat) := h'.2 v _ (hreads' v)
  simp only [← hsame] at hmem'
  obtain hcount | ⟨hpos, hpos', hall⟩ := hcount
  · rw [eq_of_mem_iff_of_ascending h.1 h'.1 fun v => by rw [hmem, hmem', hcount]]
  · by_cases hzero : ctx.Satisfied (leaf 0)
    · have hleast {vs : List Nat} (hvs : vs.Pairwise (· < ·)) (hfirst : 0 ∈ vs) :
          vs.head? = some 0 :=
        (head?_eq_some_iff_isLeast hvs 0).2 ⟨hfirst, fun v _ => Nat.zero_le v⟩
      rw [hleast h.1 ((hmem 0).2 ⟨hpos, hzero⟩), hleast h'.1 ((hmem' 0).2 ⟨hpos', hzero⟩)]
    · have hnil : versions = [] := List.eq_nil_iff_forall_not_mem.2 fun v hv =>
        hzero ((hall v).1 ((hmem v).1 hv).2)
      have hnil' : versions' = [] := List.eq_nil_iff_forall_not_mem.2 fun v hv =>
        hzero ((hall v).1 ((hmem' v).1 hv).2)
      rw [hnil, hnil']

/-- The first version of a record that is found depends on the properties that cover the condition
only. -/
theorem Catalog.AgreeOn.head?_eq {store : SubsetStore} (hacyclic : store.Acyclic)
    (hcomplete : store.Complete) {ps : PropertySet} {condition : Condition}
    (hcovered : condition.CoveredBy store.byId ps) {c c' : Catalog} (hc : c.Reachable)
    (hc' : c'.Reachable) (h : AgreeOn ps c c') {record : Nat}
    (hrecord : record < c.length?.getD 0) {versions versions' : List Nat}
    (hfinds : Evaluator.Finds ⟨c, store, condition⟩ record versions)
    (hfinds' : Evaluator.Finds ⟨c', store, condition⟩ record versions') :
    versions.head? = versions'.head? := by
  let ctx : EvalContext := ⟨c, store, condition⟩
  let ctx' : EvalContext := ⟨c', store, condition⟩
  have htest {l : Leaf} (hl : store.Consults condition l) (v : Nat) :
      ctx.test record l v = ctx'.test record l v :=
    congrArg l.matchesValues
      (h.getForVersion_eq hc hc' (hcomplete.property_mem hcovered hl) hrecord v)
  refine hfinds.head?_eq hfinds' (ctx.reads_matching record) (ctx'.reads_matching record)
    (fun v => hacyclic.holds_congr_consulted fun l hl => by rw [htest hl]) ?_
  by_cases hversions : ∃ p ∈ ps, p.isPerVersion = true
  · obtain ⟨p, hp, hversions⟩ := hversions
    exact .inl (congrArg (·.getD 1) (h.versionCount?_eq hp hversions hrecord))
  · obtain ⟨n, hn, hlists, hlists'⟩ := h.lists record hrecord
    refine .inr ⟨hlists.versionCount_pos hn, hlists'.versionCount_pos hn, fun v => ?_⟩
    refine hacyclic.holds_congr_consulted fun l hl => ?_
    have hcard : l.property.isPerVersion = false := by
      simpa using fun hl' => hversions ⟨_, hcomplete.property_mem hcovered hl, hl'⟩
    simp only [EvalContext.test, EvalContext.getForVersion_of_card hcard]

namespace Query

/-- The properties of a simplified query are enough. Over a store without cycles whose queries have
all their properties, two scans that end well find the same records with the same versions on any
two catalogs of equal length that agree on the properties of the simplified query, whatever other
properties the catalogs hold, provided that the properties of versions that they hold list as many
versions of a record, and at least one. -/
theorem simplify_sufficient {store : SubsetStore} (hacyclic : store.Acyclic)
    (hcomplete : store.Complete) (q : Query) {c c' : Catalog} (hc : c.Reachable)
    (hc' : c'.Reachable) (h : Catalog.AgreeOn (q.simplify store.byId).properties c c')
    (selection selection' : SetSelection) (bytes bytes' : Nat) {firsts firsts' : Array (Option Nat)}
    (hscan : (Scan.all ⟨c, store, (q.simplify store.byId).condition⟩ selection bytes).firsts =
      .ok firsts)
    (hscan' : (Scan.all ⟨c', store, (q.simplify store.byId).condition⟩ selection' bytes').firsts =
      .ok firsts') : firsts = firsts' := by
  obtain ⟨hlength, hfirst⟩ := Scan.firsts_all hscan
  obtain ⟨hlength', hfirst'⟩ := Scan.firsts_all hscan'
  have hsize : firsts.size = firsts'.size :=
    Option.some_inj.1 (hlength.symm.trans (h.length_eq.trans hlength'))
  refine Array.ext_getElem? fun i => ?_
  by_cases hi : i < firsts.size
  · obtain ⟨ev, versions, heval, hi₁⟩ := hfirst i hi
    obtain ⟨ev', versions', heval', hi₂⟩ := hfirst' i (hsize ▸ hi)
    have hrecord : i < c.length?.getD 0 := by
      change c.length? = some firsts.size at hlength
      rw [hlength]
      exact hi
    rw [hi₁, hi₂, h.head?_eq hacyclic hcomplete (q.coveredBy_simplify store.byId) hc hc' hrecord
      (Evaluator.finds_of_evaluate hacyclic heval) (Evaluator.finds_of_evaluate hacyclic heval')]
  · rw [Array.getElem?_eq_none (Nat.not_lt.1 hi), Array.getElem?_eq_none (hsize ▸ Nat.not_lt.1 hi)]

end Query

def lying : Catalog := Catalog.putStored ∅ .landscape #[.one (.bool true), .one (.bool false)]

/-- The same two records, of which the rarities of the printings are known as well. -/
def lyingAndRare : Catalog :=
  lying.putStored .rarity #[.rarities [.common, .rare], .rarities [.mythic]]

def storedWide : SubsetStore :=
  SubsetStore.insert ∅ ⟨"w", "wide", ⟨{.landscape}, .compare .eq .landscape (.bool true)⟩⟩

private theorem reachable_lying : lying.Reachable ∧ lyingAndRare.Reachable := by
  have hlying : Catalog.insert ∅ .landscape (.list [.bool true, .bool false]) = .ok lying := rfl
  have hrare : lying.insert .rarity (.list [.list [.text "common", .text "rare"],
      .list [.text "mythic"]]) = .ok lyingAndRare := rfl
  have hreachable : lying.Reachable := Catalog.Reachable.cleared.insert hlying
  exact ⟨hreachable, hreachable.insert hrare⟩

theorem get?_storedWide {id : String} {s : Subset} (h : storedWide.get? id = some s) :
    s.query = ⟨{.landscape}, .compare .eq .landscape (.bool true)⟩ := by
  simp only [storedWide, SubsetStore.get?, SubsetStore.insert, Dict.get?_insert] at h
  split at h
  · cases h
    rfl
  · cases h

private theorem acyclic_storedWide : storedWide.Acyclic := by
  refine SubsetStore.acyclic_of_decreasing (fun _ => 0) ?_
  rintro a b ⟨s, hs, hb⟩
  simp [get?_storedWide hs, Condition.references, Condition.compare] at hb

private theorem complete_storedWide : storedWide.Complete := by
  intro id s hs l hl
  rw [get?_storedWide hs] at hl ⊢
  obtain hl | ⟨other, hother, -⟩ := hl
  · obtain rfl : l = .compare .eq .landscape (.bool true) := by
      simpa [Condition.compare] using hl
    decide
  · simp [Condition.references, Condition.compare] at hother

/-- The first of the two records lies sideways, in one printing or in two. -/
theorem Query.simplify_sufficient_lying :
    let q := Query.simplify storedWide.byId ⟨∅, .not (.not (.subset "w"))⟩
    Catalog.AgreeOn q.properties lying lyingAndRare ∧
    (lying.versionCount? 0 = .none ∧ lyingAndRare.versionCount? 0 = some 2) ∧
    (Scan.all ⟨lying, storedWide, q.condition⟩ {} 0).firsts = .ok #[some 0, .none] ∧
    ∀ firsts, (Scan.all ⟨lyingAndRare, storedWide, q.condition⟩ {} 0).firsts = .ok firsts →
      #[some 0, .none] = firsts := by
  intro q
  have hcondition : q.condition = .subset "w" := rfl
  have hscan : (Scan.all ⟨lying, storedWide, q.condition⟩ {} 0).firsts = .ok #[some 0, .none] := by
    rw [hcondition]
    rfl
  have hprops : q.properties = {.landscape} := by decide
  have hagree : Catalog.AgreeOn q.properties lying lyingAndRare := by
    rw [hprops]
    refine ⟨rfl, ?_, ?_, ?_, ?_⟩
    · intro p hp _
      rw [PropertySet.mem_singleton.1 hp]
      decide
    · intro p hp _ record _
      rw [PropertySet.mem_singleton.1 hp]
      rfl
    · intro hp
      exact absurd (PropertySet.mem_singleton.1 hp) (by decide)
    · intro record hrecord
      have hrecord : record < 2 := hrecord
      obtain rfl | rfl : record = 0 ∨ record = 1 := by omega
      · exact ⟨2, by decide, by unfold Catalog.Lists; decide, by unfold Catalog.Lists; decide⟩
      · exact ⟨1, by decide, by unfold Catalog.Lists; decide, by unfold Catalog.Lists; decide⟩
  refine ⟨hagree, ⟨rfl, rfl⟩, hscan, fun firsts hfirsts => ?_⟩
  exact Query.simplify_sufficient acyclic_storedWide complete_storedWide _ reachable_lying.1
    reachable_lying.2 hagree {} {} 0 0 hscan hfirsts

end CardSearch
