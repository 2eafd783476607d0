import CardSearch.Proofs.Evaluation.Allocation
import CardSearch.Proofs.Query.Balance
import CardSearch.Proofs.Query.Composition
import CardSearch.Proofs.Query.Definitions

/-!
# The properties that a text lists

Reading a text loses none of the conditions of its terms and adds none, and with the condition of each
term it registers just the properties that this condition reads: those of its leaves, or those of the
subset to which it refers. A keyword whose value does not suit it leaves nothing behind. So a balanced
text lists the properties of the leaves of its condition and of the subsets to which this refers, and
no others.
-/

namespace CardSearch

namespace Condition

private theorem forall_mem_nodesOf {P : Condition → Prop} {cs : List Condition} :
    (∀ d ∈ nodesOf cs, P d) ↔ ∀ c ∈ cs, ∀ d ∈ nodes c, P d := by
  induction cs with
  | nil => simp [nodesOf]
  | cons c cs ih => rw [nodesOf, List.forall_mem_append, List.forall_mem_cons, ih]

/-- A junction has several parts, a range is one of release dates, and a reference leads to an id with
a property. -/
def Formed (stored : String → Prop) : Condition → Prop
  | .any cs | .all cs => 2 ≤ cs.length
  | .leaf (.range p first _ last _) =>
    p = .releasedAt ∧ (∃ d, first = .date d) ∧ ∃ d, last = .date d
  | .subset id => stored id
  | _ => True

theorem Formed.mono {stored stored' : String → Prop} {c : Condition} (h : c.Formed stored)
    (hle : ∀ id, stored id → stored' id) : c.Formed stored' := by
  cases c with
  | subset id => exact hle id h
  | leaf l => cases l <;> exact h
  | const | not | any | all => exact h

variable {names : Dict Subset}

private theorem formed_leaf {stored : String → Prop} {l : Leaf} (h : l.Typed) :
    (leaf l).Formed stored := by
  cases h with
  | period hfirst hlast => exact ⟨rfl, ⟨_, rfl⟩, ⟨_, rfl⟩⟩
  | _ => trivial

/-- Reading only makes formed nodes. -/
theorem built_formed (names : Dict Subset) : Built names fun c =>
    ∀ d ∈ c.nodes, d.Formed fun id => ∃ name s, names.get? name = some s ∧ s.id = id where
  truth := by simp [nodes, Formed]
  not h := by
    rw [nodes, List.forall_mem_cons]
    exact ⟨trivial, h⟩
  any hlength h := by
    rw [nodes, List.forall_mem_cons, forall_mem_nodesOf]
    exact ⟨hlength, h⟩
  all hlength h := by
    rw [nodes, List.forall_mem_cons, forall_mem_nodesOf]
    exact ⟨hlength, h⟩
  leaf l h := by
    rw [nodes, List.forall_mem_singleton]
    exact formed_leaf h
  subset name s h := by
    rw [nodes, List.forall_mem_singleton]
    exact ⟨name, s, h, rfl⟩

def ReadsItself (c : Condition) (p : Property) : Prop := ∃ l ∈ c.leaves, l.property = p

theorem hereditary_not_mem_references (id : String) : Hereditary (id ∉ references ·) := by
  have hsame : (id ∉ references ·) = RefersWithin (· ≠ id) := by
    funext c
    simp only [RefersWithin, ← List.forall_mem_ne, ne_eq, eq_comm]
  rw [hsame]
  exact hereditary_refersWithin (· ≠ id)

theorem hereditary_not_readsItself (p : Property) : Hereditary (¬ ReadsItself · p) := by
  have hsame : (¬ ReadsItself · p) = Each (·.property ≠ p) := by
    funext c
    simp [ReadsItself, Each]
  rw [hsame]
  exact hereditary_each (·.property ≠ p)

variable {M : Condition → Prop}

theorem forall_collapse_iff {join : List Condition → Condition} {cs : List Condition}
    (hjoin : M (join cs) ↔ ∀ c ∈ cs, M c) :
    (∀ c, collapse join cs = some c → M c) ↔ ∀ c ∈ cs, M c := by
  match cs with
  | [] => simp [collapse]
  | [c] => simp [collapse]
  | c :: d :: cs => simpa [collapse] using hjoin

end Condition

namespace OpenGroup

open Condition

variable {M : Condition → Prop} {g : OpenGroup}

private theorem negate_iff (hM : Hereditary M) (n : Nat) (c : Condition) :
    M (negate n c) ↔ M c := by
  induction n with
  | zero => rfl
  | succ n ih => exact hM.not.trans ih

private theorem each_push_iff (c : Condition) : (g.push c).Each M ↔ g.Each M ∧ M c := by
  rw [Each, push, List.forall_mem_cons, Each]
  tauto

theorem each_endAlternative_iff (hM : Hereditary M) : g.endAlternative.Each M ↔ g.Each M := by
  have hconjuncts : (∀ c, collapse .all g.conjuncts.reverse = some c → M c) ↔
      ∀ c ∈ g.conjuncts.reverse, M c := forall_collapse_iff hM.all
  simp only [List.mem_reverse] at hconjuncts
  unfold endAlternative
  cases hc : collapse .all g.conjuncts.reverse with
  | none => rfl
  | some c =>
    simp only [hc, Option.some.injEq, forall_eq'] at hconjuncts
    simp only [Each, List.forall_mem_cons, hconjuncts]
    simp [and_comm]

/-- A group that comes to no condition holds none. -/
theorem forall_condition?_iff (hM : Hereditary M) :
    (∀ c, g.condition? = some c → M c) ↔ g.Each M := by
  rw [condition?, forall_collapse_iff hM.any, ← each_endAlternative_iff hM, Each,
    conjuncts_endAlternative]
  simp

end OpenGroup

namespace QueryReader

open Condition

variable {M : Condition → Prop} {r r' : QueryReader}

private theorem each_push_iff (hM : Hereditary M) (c : Condition) :
    (r.push c).Each M ↔ r.Each M ∧ M c := by
  simp only [Each, push, OpenGroup.each_push_iff, OpenGroup.negate_iff hM]
  tauto

/-- After a token all conditions have a property if they had it before and that of the token has it. -/
theorem each_step_iff (hM : Hereditary M) {t : Token} (hstep : r.step t = some r') :
    r'.Each M ↔ r.Each M ∧ ∀ term, t = .term term → M term.condition := by
  cases t with
  | term term =>
    cases hstep
    rw [each_push_iff hM]
    simp [Each]
  | minus =>
    cases hstep
    simp [Each]
  | or =>
    cases hstep
    simp [Each, OpenGroup.each_endAlternative_iff hM]
  | opening =>
    cases hstep
    simp [Each, OpenGroup.each_new]
  | closing =>
    have hgroup := r.group.forall_condition?_iff hM
    simp only [step] at hstep
    split at hstep
    · cases hstep
    · next g outer houter =>
      split at hstep
      · next hnone =>
        cases hstep
        simp only [hnone, reduceCtorEq, false_implies, implies_true, true_iff] at hgroup
        simp [Each, houter, hgroup]
      · next c hc =>
        cases hstep
        simp only [hc, Option.some.injEq, forall_eq'] at hgroup
        rw [each_push_iff hM, hgroup]
        simp only [Each, houter, List.forall_mem_cons, reduceCtorEq, false_implies, implies_true,
          and_true]
        tauto

theorem each_steps_iff (hM : Hereditary M) {ts : List Token} (hsteps : r.steps ts = some r') :
    r'.Each M ↔ r.Each M ∧ ∀ term, .term term ∈ ts → M term.condition := by
  induction ts generalizing r with
  | nil =>
    cases hsteps
    simp
  | cons t ts ih =>
    obtain ⟨next, hnext, hsteps⟩ := Option.bind_eq_some_iff.1 (steps_cons .. ▸ hsteps)
    rw [ih hsteps, each_step_iff hM hnext]
    simp only [List.mem_cons, or_imp, forall_and, eq_comm (a := t), and_assoc]

theorem finish_iff (hM : Hereditary M) (houter : r.outer = []) :
    M r.finish.condition ↔ r.Each M := by
  have hgroup := r.group.forall_condition?_iff hM
  rw [finish, houter, Each, houter, ← hgroup]
  cases r.group.condition? with
  | none => simp [hM.const true]
  | some c => simp

private theorem mem_properties_step {t : Token} (h : r.step t = some r') (p : Property) :
    p ∈ r'.properties ↔ p ∈ r.properties ∨ ∃ term, t = .term term ∧ p ∈ term.properties := by
  cases t with
  | term term =>
    cases h
    simp [push]
  | minus | or | opening =>
    cases h
    simp
  | closing =>
    simp only [step] at h
    split at h
    · cases h
    · split at h <;> cases h <;> simp [push]

private theorem mem_properties_steps {ts : List Token} (h : r.steps ts = some r') (p : Property) :
    p ∈ r'.properties ↔ p ∈ r.properties ∨ ∃ term, .term term ∈ ts ∧ p ∈ term.properties := by
  induction ts generalizing r with
  | nil =>
    cases h
    simp
  | cons t ts ih =>
    obtain ⟨next, hnext, h⟩ := Option.bind_eq_some_iff.1 (steps_cons .. ▸ h)
    rw [ih h, mem_properties_step hnext]
    simp only [List.mem_cons, or_and_right, exists_or, eq_comm (a := t), or_assoc]

end QueryReader

namespace Term

open Condition

def ofSubset (s : Subset) : Term := ⟨.subset s.id, s.query.properties⟩

variable {names : Dict Subset} {t : Term}

private theorem Form.mem_references_iff (h : t.Form names) (id : String) :
    id ∈ t.condition.references ↔
      ∃ s, (∃ name, names.get? name = some s) ∧ t = ofSubset s ∧ s.id = id := by
  cases h with
  | leaf hl | denial hl | truth => simp [ofLeaf, ofSubset, references]
  | @parts q ls several hls =>
    rw [references_all_leaf]
    simp [ofSubset]
  | @subset name s hs =>
    simp only [references_subset, List.mem_singleton]
    constructor
    · rintro rfl
      exact ⟨s, ⟨name, hs⟩, rfl, rfl⟩
    · rintro ⟨s', -, heq, rfl⟩
      exact (Condition.subset.inj (Term.mk.inj heq).1).symm

/-- A term lists the properties that its condition reads, itself or through a subset. -/
theorem Form.mem_properties_iff (h : t.Form names) (p : Property) :
    p ∈ t.properties ↔ t.condition.ReadsItself p ∨
      ∃ s, (∃ name, names.get? name = some s) ∧ t = ofSubset s ∧ p ∈ s.query.properties := by
  cases h with
  | leaf hl | denial hl => simp [ofLeaf, ofSubset, ReadsItself, eq_comm]
  | truth => simp [ofSubset, ReadsItself]
  | @parts q ls several hls =>
    obtain ⟨l, hl⟩ := List.exists_mem_of_length_pos (Nat.lt_of_lt_of_le Nat.zero_lt_two several)
    have hreads : ReadsItself (.all (ls.map .leaf)) p ↔ q = p := by
      simp only [ReadsItself, mem_leaves_all, List.mem_map]
      constructor
      · rintro ⟨l', ⟨c, ⟨m, hm, rfl⟩, hl'⟩, rfl⟩
        rw [leaves_leaf, List.mem_singleton] at hl'
        exact hl' ▸ (hls m hm).2.symm
      · rintro rfl
        exact ⟨l, ⟨.leaf l, ⟨l, hl, rfl⟩, by simp⟩, (hls l hl).2⟩
    simp [hreads, ofSubset, eq_comm]
  | @subset name s hs =>
    constructor
    · exact fun hp => .inr ⟨s, ⟨name, hs⟩, rfl, hp⟩
    · rintro (⟨l, hl, -⟩ | ⟨s', -, heq, hp⟩)
      · simp at hl
      · exact (Term.mk.inj heq).2 ▸ hp

end Term

/-- A condition refers to the ids of subsets, and its properties are those that its leaves read and
those of the subsets. -/
structure Query.Lists (used : Set Subset) (q : Query) : Prop where
  refers (id : String) : id ∈ q.condition.references ↔ ∃ s ∈ used, s.id = id
  reads (p : Property) :
    p ∈ q.properties ↔ q.condition.ReadsItself p ∨ ∃ s ∈ used, p ∈ s.query.properties

namespace Query

open Condition

variable {names : Dict Subset} {text : String}

def usedSubsets (names : Dict Subset) (text : String) : Set Subset :=
  {s | (∃ name, names.get? name = some s) ∧
    .term (.ofSubset s) ∈ Token.scanAll names false text.toList}

theorem condition_read_iff {M : Condition → Prop} (hM : Hereditary M) (h : Balanced names text) :
    M (read names text).condition ↔
      ∀ t, .term t ∈ Token.scanAll names false text.toList → M t.condition := by
  obtain ⟨r, hr, houter⟩ := balanced_iff.1 h
  rw [read, QueryReader.run_of_steps hr, QueryReader.finish_iff hM houter,
    QueryReader.each_steps_iff hM hr]
  exact and_iff_right QueryReader.each_new

/-- A balanced text reads or refers to something if one of its terms does. -/
theorem exists_condition_read_iff {M : Condition → Prop} (hM : Hereditary (¬ M ·))
    (h : Balanced names text) : M (read names text).condition ↔
      ∃ t, .term t ∈ Token.scanAll names false text.toList ∧ M t.condition := by
  rw [← not_iff_not, condition_read_iff hM h]
  simp only [not_exists, not_and]

private theorem mem_properties_read (h : Balanced names text) (p : Property) :
    p ∈ (read names text).properties ↔
      ∃ t, .term t ∈ Token.scanAll names false text.toList ∧ p ∈ t.properties := by
  obtain ⟨r, hr, houter⟩ := balanced_iff.1 h
  have hproperties : r.finish.properties = r.properties := by rw [QueryReader.finish, houter]
  rw [read, QueryReader.run_of_steps hr, hproperties, QueryReader.mem_properties_steps hr]
  simp

theorem lists_read (h : Balanced names text) :
    (read names text).Lists (usedSubsets names text) where
  refers id := by
    rw [exists_condition_read_iff (hereditary_not_mem_references id) h]
    constructor
    · rintro ⟨t, ht, hid⟩
      obtain ⟨s, hs, rfl, rfl⟩ := ((Token.form_of_mem_scanAll ht).mem_references_iff id).1 hid
      exact ⟨s, ⟨hs, ht⟩, rfl⟩
    · rintro ⟨s, ⟨-, ht⟩, rfl⟩
      exact ⟨_, ht, by simp [Term.ofSubset]⟩
  reads p := by
    rw [mem_properties_read h, exists_condition_read_iff (hereditary_not_readsItself p) h]
    constructor
    · rintro ⟨t, ht, hp⟩
      obtain hself | ⟨s, hs, rfl, hp⟩ := ((Token.form_of_mem_scanAll ht).mem_properties_iff p).1 hp
      · exact .inl ⟨t, ht, hself⟩
      · exact .inr ⟨s, ⟨hs, ht⟩, hp⟩
    · rintro (⟨t, ht, hself⟩ | ⟨s, ⟨-, ht⟩, hp⟩)
      · exact ⟨t, ht, ((Token.form_of_mem_scanAll ht).mem_properties_iff p).2 (.inl hself)⟩
      · exact ⟨_, ht, hp⟩

private theorem formed_read (h : Balanced names text) :
    ∀ d ∈ (read names text).condition.nodes,
      d.Formed fun id => ∃ name s, names.get? name = some s ∧ s.id = id := by
  obtain hformed | hfalse := (built_formed names).read text
  · exact hformed
  · exact absurd h (condition_read_eq_false_iff.1 hfalse)

/-- Over the subsets of a store, a balanced text lists the properties of the leaves of its condition
and those of the subsets to which this refers, and no others. Every junction in the condition has two
parts or more, every range is one of release dates, and every reference leads to a stored subset. -/
theorem read_lists_properties (calls : List SubsetCall) (text : String)
    (h : Balanced (SubsetStore.run calls).byName text) :
    let store := SubsetStore.run calls
    let q := read store.byName text
    (∀ p, p ∈ q.properties ↔ (∃ l ∈ q.condition.leaves, l.property = p) ∨
      ∃ id ∈ q.condition.references, ∃ s, store.get? id = some s ∧ p ∈ s.query.properties) ∧
    ∀ d ∈ q.condition.nodes, d.Formed store.Stores := by
  intro store q
  have hfiled : store.Filed := SubsetStore.filed_run calls
  have hlists : q.Lists (usedSubsets store.byName text) := lists_read h
  refine ⟨fun p => ?_, fun d hd => ?_⟩
  · rw [hlists.reads p]
    apply or_congr_right
    constructor
    · rintro ⟨s, hs, hp⟩
      obtain ⟨name, hname⟩ := hs.1
      exact ⟨s.id, (hlists.refers s.id).2 ⟨s, hs, rfl⟩, s, hfiled.get?_id hname, hp⟩
    · rintro ⟨id, hid, s, hstored, hp⟩
      obtain ⟨used, hused, rfl⟩ := (hlists.refers id).1 hid
      obtain ⟨name, hname⟩ := hused.1
      have heq : used = s := Option.some.inj ((hfiled.get?_id hname).symm.trans hstored)
      exact ⟨used, hused, heq ▸ hp⟩
  · apply (formed_read h d hd).mono
    rintro id ⟨name, s, hname, rfl⟩
    exact ⟨s, hfiled.get?_id hname⟩

/-- A date and a mana value that do not suit their keywords are searched for in names, and the
properties of the subset come with its id. -/
theorem read_lists_properties_elves :
    let elves : Subset := ⟨"1", "elves", read {} "t:elf o:draw"⟩
    let store := SubsetStore.run [.create elves]
    let q := read store.byName "ss:elves (date>soon or cmc:many) -id:wu"
    Balanced store.byName "ss:elves (date>soon or cmc:many) -id:wu" ∧
      q.condition.references = ["1"] ∧
      (∀ p, p ∈ q.properties ↔ (∃ l ∈ q.condition.leaves, l.property = p) ∨
        ∃ id ∈ q.condition.references, ∃ s, store.get? id = some s ∧ p ∈ s.query.properties) ∧
      ∀ d ∈ q.condition.nodes, d.Formed store.Stores := by
  intro elves store q
  have hbalanced : Balanced store.byName "ss:elves (date>soon or cmc:many) -id:wu" := by
    decide +kernel
  have hreferences : q.condition.references = ["1"] := by decide +kernel
  exact ⟨hbalanced, hreferences, read_lists_properties [.create elves] _ hbalanced⟩

end Query

end CardSearch
