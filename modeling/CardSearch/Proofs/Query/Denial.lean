import CardSearch.Proofs.Evaluation.Locality
import CardSearch.Proofs.Query.Simplification

/-!
# Where the denial of a leaf is exact

A negated comparison or parity is simplified to its opposite. An equality finds the same versions
so, whatever the values are. Any other comparison, and a parity, does so exactly where the value is
on one side: some entry satisfies the leaf or its opposite, and no two entries satisfy one each. A
missing value is on neither side; a card with two faces may be on both; and of two costs neither may
include the other.
-/

namespace CardSearch

/-- Where an entry decides a list, the answer says whether some entry satisfies the test. -/
theorem decideEntries_eq_true_iff {test : Datum → Except EvalCause Bool} {ds : List (Option Datum)}
    {b : Bool} (h : decideEntries true test ds = .ok b) :
    b = true ↔ ∃ d, some d ∈ ds ∧ test d = .ok true := by
  induction ds with
  | nil =>
    cases h
    simp
  | cons d? ds ih =>
    cases d? with
    | none => simpa using ih h
    | some d =>
      simp only [decideEntries] at h
      cases htest : test d with
      | error e => simp [htest] at h
      | ok answer =>
        cases answer with
        | true =>
          obtain rfl : b = true := by simpa [htest] using h.symm
          exact iff_of_true rfl ⟨d, List.mem_cons_self, htest⟩
        | false => simpa [htest] using ih (by simpa [htest] using h)

theorem eq_ok_false_of_decideEntries {test : Datum → Except EvalCause Bool}
    {ds : List (Option Datum)} (h : decideEntries true test ds = .ok false) {d : Datum}
    (hd : some d ∈ ds) : test d = .ok false := by
  induction ds with
  | nil => cases hd
  | cons first? ds ih =>
    cases first? with
    | none => exact ih h (by simpa using hd)
    | some first =>
      simp only [decideEntries] at h
      cases htest : test first with
      | error e => simp [htest] at h
      | ok answer =>
        cases answer with
        | true => simp [htest] at h
        | false =>
          rcases List.mem_cons.1 hd with heq | hd
          · cases heq
            exact htest
          · exact ih (by simpa [htest] using h) hd

/-- A single datum is decided like a list of one. -/
theorem Values.decide_eq_decideEntries (deciding : Bool) (test : Datum → Except EvalCause Bool)
    (vs : Values) : vs.decide deciding test = decideEntries deciding test vs.entries := by
  cases vs with
  | one d =>
    simp only [Values.decide, Values.entries, decideEntries]
    cases test d with
    | error e => rfl
    | ok b => cases b <;> cases deciding <;> rfl
  | missing | texts _ | costs _ | rarities _ | dates _ => rfl

namespace Leaf

def SomeEntry (l : Leaf) (vs : Values) : Prop := ∃ d, some d ∈ vs.entries ∧ l.matchesDatum d = .ok true

/-- A value is on one side of two opposite leaves: some entry satisfies one of them, and none the
other. -/
def OneSided (l l' : Leaf) (vs : Values) : Prop := l.SomeEntry vs ↔ ¬ l'.SomeEntry vs

/-- All entries of a value give one answer, and there are some. -/
def Unanimous (l : Leaf) (vs : Values) : Prop :=
  (∃ d, some d ∈ vs.entries) ∧ ∃ b, ∀ d, some d ∈ vs.entries → l.matchesDatum d = .ok b

def comparesCost : Leaf → Bool
  | compare _ _ (.cost _) => true
  | _ => false

variable {l l' : Leaf} {vs : Values} {b b' : Bool}

theorem deciding_of_isOrdering (h : l.isOrdering = true) : l.deciding = true := by
  cases l with
  | compare op p value => cases op <;> first | rfl | cases h
  | contains | parity | range => rfl

theorem isOrdering_of_denied? (h : l.denied? = some l') : l'.isOrdering = l.isOrdering := by
  cases l with
  | compare op p value => cases op <;> cases h <;> rfl
  | parity which p => cases h; rfl
  | contains p part => cases h
  | range p first firstIncluded last lastIncluded => cases h

/-- Of one datum a leaf and its denial give opposite answers, unless costs are compared. -/
theorem matchesDatum_denial (h : l.denied? = some l') (hcost : l.comparesCost = false) (d : Datum)
    (b : Bool) : l'.matchesDatum d = .ok b ↔ l.matchesDatum d = .ok !b := by
  cases l with
  | compare op p value =>
    cases h
    refine compareDatum_negate (.inr fun cost hvalue => ?_) p d b
    subst hvalue
    cases hcost
  | parity which p =>
    cases h
    cases d with
    | number x => cases which <;> simp only [Parity.negate, matchesDatum] <;>
        cases x.isEven <;> cases b <;> simp
    | bool _ | text _ | date _ | cost _ | rarity _ => cases which <;> simp [matchesDatum]
  | contains p part => cases h
  | range p first firstIncluded last lastIncluded => cases h

theorem someEntry_iff_of_matchesValues (hord : l.isOrdering = true)
    (h : l.matchesValues vs = .ok b) : l.SomeEntry vs ↔ b = true := by
  rw [matchesValues, deciding_of_isOrdering hord, Values.decide_eq_decideEntries] at h
  exact (decideEntries_eq_true_iff h).symm

private theorem matchesDatum_of_matchesValues (hord : l.isOrdering = true)
    (h : l.matchesValues vs = .ok false) {d : Datum} (hd : some d ∈ vs.entries) :
    l.matchesDatum d = .ok false := by
  rw [matchesValues, deciding_of_isOrdering hord, Values.decide_eq_decideEntries] at h
  exact eq_ok_false_of_decideEntries h hd

/-- The answers of a leaf and its denial are opposite exactly for equalities and for values on one
side. -/
theorem opposite_iff_oneSided (h : l.denied? = some l') (hb : l.matchesValues vs = .ok b)
    (hb' : l'.matchesValues vs = .ok b') :
    b' = !b ↔ (l.isOrdering = true → l.OneSided l' vs) := by
  cases hord : l.isOrdering with
  | false => exact iff_of_true (opposite_of_equality h hord hb hb') nofun
  | true =>
    have hord' := (isOrdering_of_denied? h).trans hord
    rw [OneSided, someEntry_iff_of_matchesValues hord hb, someEntry_iff_of_matchesValues hord' hb']
    cases b <;> cases b' <;> simp

/-- Where no costs are compared, a value is on one side when its entries agree. -/
theorem oneSided_iff_unanimous (h : l.denied? = some l') (hord : l.isOrdering = true)
    (hcost : l.comparesCost = false) (hb : l.matchesValues vs = .ok b)
    (hb' : l'.matchesValues vs = .ok b') : l.OneSided l' vs ↔ l.Unanimous vs := by
  have hord' := (isOrdering_of_denied? h).trans hord
  have hdatum := matchesDatum_denial h hcost
  constructor
  · intro hside
    rw [OneSided, someEntry_iff_of_matchesValues hord hb,
      someEntry_iff_of_matchesValues hord' hb'] at hside
    cases b with
    | true =>
      -- no entry satisfies the denial, so all satisfy the leaf
      obtain rfl : b' = false := by simpa using hside
      obtain ⟨d, hd, -⟩ := (someEntry_iff_of_matchesValues hord hb).2 rfl
      exact ⟨⟨d, hd⟩, true, fun d hd =>
        (hdatum d false).1 (matchesDatum_of_matchesValues hord' hb' hd)⟩
    | false =>
      obtain rfl : b' = true := by simpa using hside
      obtain ⟨d, hd, -⟩ := (someEntry_iff_of_matchesValues hord' hb').2 rfl
      exact ⟨⟨d, hd⟩, false, fun d hd => matchesDatum_of_matchesValues hord hb hd⟩
  · rintro ⟨⟨d, hd⟩, answer, hall⟩
    -- all entries satisfy the leaf, or all satisfy its denial
    cases answer with
    | true =>
      refine iff_of_true ⟨d, hd, hall d hd⟩ fun ⟨d', hd', hmatch⟩ => ?_
      have := (hdatum d' true).1 hmatch
      simp [hall d' hd'] at this
    | false =>
      refine iff_of_false (fun ⟨d', hd', hmatch⟩ => ?_) (not_not_intro ⟨d, hd, ?_⟩)
      · simp [hall d' hd'] at hmatch
      · exact (hdatum d true).2 (hall d hd)

end Leaf

namespace Evaluator

variable {catalog : Catalog} {subsets : SubsetStore} {record : Nat} {versions : List Nat}
  {ev : Evaluator}

/-- A condition that refers to no subset finds the versions that satisfy it, whatever subsets are
stored. -/
theorem finds_of_evaluate_of_references_eq_nil {condition : Condition}
    (hrefs : condition.references = [])
    (h : (ev.evaluate ⟨catalog, subsets, condition⟩ record).versions = .ok versions) :
    Finds ⟨catalog, ∅, condition⟩ record versions := by
  rw [ev.evaluate_of_references_eq_nil hrefs subsets ∅] at h
  have hnone : (∅ : SubsetStore).Acyclic :=
    SubsetStore.acyclic_of_decreasing (fun _ => 0) fun a b ⟨s, hs, _⟩ => by cases hs
  exact finds_of_evaluate hnone h

/-- An evaluation of a leaf, or of its negation, that ends well has an answer of the leaf at every
version, and finds the version according to it. -/
theorem Finds.exists_answer {l : Leaf} {condition : Condition} {p : Prop} {v : Nat}
    (h : Finds ⟨catalog, ∅, condition⟩ record versions)
    (hcondition : ∀ leaf, EvalContext.Satisfied ⟨catalog, ∅, condition⟩ leaf ↔ (leaf l ↔ p))
    (hv : v < (catalog.versionCount? record).getD 1) :
    ∃ b, l.matchesValues (catalog.getForVersion record v l.property) = .ok b ∧
      (v ∈ versions ↔ (b = true ↔ p)) := by
  have hreads := EvalContext.reads_matching ⟨catalog, ∅, condition⟩ record v
  have hfound := (h.2 v _ hreads).trans ((and_iff_right hv).trans (hcondition _))
  cases hb : l.matchesValues (catalog.getForVersion record v l.property) with
  | ok b =>
    refine ⟨b, rfl, hfound.trans ?_⟩
    rw [EvalContext.test, hb]
    cases b <;> simp
  | error e =>
    -- without an answer the leaf could as well be taken to hold
    have hreads' : EvalContext.Reads ⟨catalog, ∅, condition⟩ record v fun l' =>
        l' = l ∨ EvalContext.test ⟨catalog, ∅, condition⟩ record l' v = .ok true := by
      constructor
      · intro l' b hp hb'
        have hne : l' ≠ l := by
          rintro rfl
          simp [hb] at hb'
        simpa [hne] using hreads.ofVersion l' b hp hb'
      · intro l' b hp hb'
        have hne : l' ≠ l := by
          rintro rfl
          rw [← EvalContext.getForVersion_of_card (v := v) hp] at hb'
          simp [hb] at hb'
        simpa [hne] using hreads.ofCard l' b hp hb'
    have hfound' := (h.2 v _ hreads').trans ((and_iff_right hv).trans (hcondition _))
    have hcontra := hfound.symm.trans hfound'
    simp only [EvalContext.test, hb, reduceCtorEq, false_iff, true_or, true_iff] at hcontra
    exact absurd hcontra not_iff_self

end Evaluator

/-- A negated comparison or parity and what it is simplified to find the same versions of a record
exactly where, unless it is an equality, the value at each version is on one side of the leaf and
its opposite. Where no costs are compared these are the values all of whose entries give one
answer, and that have an entry. -/
theorem negation_exact_iff_oneSided {l l' : Leaf} (hl : l.denied? = some l') {catalog : Catalog}
    {subsets : SubsetStore} {properties : PropertySet} {record : Nat}
    {versions simplified : List Nat}
    (hversions : Query.Finds catalog subsets record ⟨properties, .not (.leaf l)⟩ versions)
    (hsimplified : (Query.simplify subsets.byId ⟨properties, .not (.leaf l)⟩).Finds catalog subsets
      record simplified) :
    (simplified = versions ↔ (l.isOrdering = true →
      ∀ v < (catalog.versionCount? record).getD 1,
        l.OneSided l' (catalog.getForVersion record v l.property))) ∧
    (l.isOrdering = true → l.comparesCost = false →
      ∀ v < (catalog.versionCount? record).getD 1,
        (l.OneSided l' (catalog.getForVersion record v l.property) ↔
          l.Unanimous (catalog.getForVersion record v l.property))) := by
  have hdenial : (Query.simplify subsets.byId ⟨properties, .not (.leaf l)⟩).condition = .leaf l' := by
    cases l <;> cases hl <;> rfl
  obtain ⟨ev, hversions⟩ := hversions
  obtain ⟨ev', hsimplified⟩ := hsimplified
  rw [hdenial] at hsimplified
  have hfinds := Evaluator.finds_of_evaluate_of_references_eq_nil (by simp [Condition.references])
    hversions
  have hfinds' := Evaluator.finds_of_evaluate_of_references_eq_nil (by simp [Condition.references])
    hsimplified
  -- both leaves have an answer at every version, and the versions are found according to it
  have hanswers (v : Nat) (hv : v < (catalog.versionCount? record).getD 1) :
      ∃ b b', l.matchesValues (catalog.getForVersion record v l.property) = .ok b ∧
        l'.matchesValues (catalog.getForVersion record v l.property) = .ok b' ∧
        ((v ∈ simplified ↔ v ∈ versions) ↔ b' = !b) := by
    obtain ⟨b, hb, hmem⟩ := hfinds.exists_answer (l := l) (p := False)
      (fun leaf => by simp [EvalContext.Satisfied]) hv
    obtain ⟨b', hb', hmem'⟩ := hfinds'.exists_answer (l := l') (p := True)
      (fun leaf => by simp [EvalContext.Satisfied]) hv
    rw [Leaf.property_of_denied? hl] at hb'
    refine ⟨b, b', hb, hb', ?_⟩
    rw [hmem, hmem']
    cases b <;> cases b' <;> simp
  refine ⟨?_, fun hord hcost v hv => ?_⟩
  · have hbelow {v : Nat} : v ∈ versions ∨ v ∈ simplified →
        v < (catalog.versionCount? record).getD 1 := by
      rintro (hv | hv)
      · exact ((hfinds.2 v _ (EvalContext.reads_matching ..)).1 hv).1
      · exact ((hfinds'.2 v _ (EvalContext.reads_matching ..)).1 hv).1
    constructor
    · rintro rfl hord v hv
      obtain ⟨b, b', hb, hb', hsame⟩ := hanswers v hv
      exact (Leaf.opposite_iff_oneSided hl hb hb').1 (hsame.1 Iff.rfl) hord
    · intro hside
      refine eq_of_mem_iff_of_ascending hfinds'.1 hfinds.1 fun v => ?_
      by_cases hv : v < (catalog.versionCount? record).getD 1
      · obtain ⟨b, b', hb, hb', hsame⟩ := hanswers v hv
        exact hsame.2 ((Leaf.opposite_iff_oneSided hl hb hb').2 fun hord => hside hord v hv)
      · exact iff_of_false (fun h => hv (hbelow (.inr h))) fun h => hv (hbelow (.inl h))
  · obtain ⟨b, b', hb, hb', -⟩ := hanswers v hv
    exact Leaf.oneSided_iff_unanimous hl hord hcost hb hb'

def greenCosts : Catalog :=
  Catalog.putColumn ∅ .cost #[.costs [some (ManaCost.ofList [("G", 1)])], .missing]

def atLeastRed : Leaf := .compare .ge .cost (.cost (ManaCost.ofList [("R", 1)]))

def belowRed : Leaf := .compare .lt .cost (.cost (ManaCost.ofList [("R", 1)]))

/-- Neither card costs at least one red mana, and neither costs less: the negation finds both cards
and what it is simplified to finds none of them. -/
theorem negation_exact_iff_oneSided_greenCosts :
    atLeastRed.denied? = some belowRed ∧ ∀ record < 2,
      Query.Finds greenCosts ∅ record ⟨∅, .not (.leaf atLeastRed)⟩ [0] ∧
      (Query.simplify {} ⟨∅, .not (.leaf atLeastRed)⟩).Finds greenCosts ∅ record [] ∧
      ¬ atLeastRed.OneSided belowRed (greenCosts.getForVersion record 0 .cost) := by
  refine ⟨rfl, fun record hrecord => ?_⟩
  have hrecord : record = 0 ∨ record = 1 := by omega
  have hversions : Query.Finds greenCosts ∅ record ⟨∅, .not (.leaf atLeastRed)⟩ [0] := by
    rcases hrecord with rfl | rfl <;> exact ⟨.new {} 0, rfl⟩
  have hsimplified :
      (Query.simplify {} ⟨∅, .not (.leaf atLeastRed)⟩).Finds greenCosts ∅ record [] := by
    rcases hrecord with rfl | rfl <;> exact ⟨.new {} 0, rfl⟩
  refine ⟨hversions, hsimplified, fun hside => ?_⟩
  have hdenied : atLeastRed.denied? = some belowRed := rfl
  have hexact := (negation_exact_iff_oneSided hdenied hversions hsimplified).1
  have hcount : (greenCosts.versionCount? record).getD 1 = 1 := by
    rcases hrecord with rfl | rfl <;> rfl
  have hsame : ([] : List Nat) = [0] := hexact.2 fun _ v hv => by
    obtain rfl : v = 0 := by omega
    exact hside
  cases hsame

end CardSearch
