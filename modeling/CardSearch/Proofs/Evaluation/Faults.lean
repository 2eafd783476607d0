import CardSearch.Evaluation
import CardSearch.Proofs.Query.Kinds
import CardSearch.Proofs.VersionSet.Laws

/-!
# What an evaluation can fail of

A test of a leaf never fails of an operation on version sets. If every test gives an answer, an
evaluation can only fail of such an operation. Tests do give answers when the catalog holds decoded
data and the condition and the stored subsets were typed.
-/

namespace CardSearch

def AvoidsSets {α : Type} (x : Except EvalCause α) : Prop := ∀ e, x ≠ .error (.set e)

namespace AvoidsSets

variable {α β : Type}

private theorem ok (a : α) : AvoidsSets (.ok a) := nofun

private theorem bind {x : Except EvalCause α} {f : α → Except EvalCause β} (h : AvoidsSets x)
    (hf : ∀ a, AvoidsSets (f a)) : AvoidsSets (x >>= f) := by
  cases x with
  | ok a => exact hf a
  | error cause =>
    intro e he
    cases he
    exact h e rfl

private theorem map {x : Except EvalCause α} (h : AvoidsSets x) (f : α → β) :
    AvoidsSets (f <$> x) := by
  cases x with
  | ok a => exact nofun
  | error cause =>
    intro e he
    cases he
    exact h e rfl

end AvoidsSets

private theorem Datum.avoidsSets_order (condition : String) (d : Datum) (value : Literal) :
    AvoidsSets (d.order condition value) := by
  unfold order
  split
  · exact nofun
  · exact nofun

namespace Leaf

private theorem avoidsSets_compareCost (op : CompareOp) (p : Property) (cost : ManaCost)
    (value : Literal) : AvoidsSets (compareCost op p cost value) := by
  unfold compareCost
  split
  · exact nofun
  · split <;> exact nofun
  · exact nofun

theorem avoidsSets_matchesDatum (l : Leaf) (d : Datum) : AvoidsSets (l.matchesDatum d) := by
  unfold matchesDatum
  split
  · exact nofun
  · exact nofun
  · exact nofun
  · exact nofun
  · exact nofun
  · unfold between
    refine (d.avoidsSets_order _ _).bind fun o => ?_
    split
    · exact nofun
    · exact (d.avoidsSets_order _ _).bind fun o => nofun
  · unfold compareDatum
    split
    · split
      · exact avoidsSets_compareCost _ _ _ _
      · exact (Datum.avoidsSets_order _ _ _).map _
    · exact (Datum.avoidsSets_order _ _ _).map _

private theorem avoidsSets_decideEntries (l : Leaf) (entries : List (Option Datum)) :
    AvoidsSets (decideEntries l.deciding l.matchesDatum entries) := by
  induction entries with
  | nil => exact AvoidsSets.ok _
  | cons entry entries ih =>
    cases entry with
    | none => exact ih
    | some d =>
      have htest : AvoidsSets (l.matchesDatum d) := l.avoidsSets_matchesDatum d
      rw [decideEntries]
      cases hd : l.matchesDatum d with
      | error cause =>
        rw [hd] at htest
        exact htest
      | ok b =>
        dsimp only
        split
        · exact AvoidsSets.ok _
        · exact ih

theorem avoidsSets_matchesValues (l : Leaf) (vs : Values) : AvoidsSets (l.matchesValues vs) := by
  unfold matchesValues Values.decide
  split
  · exact l.avoidsSets_matchesDatum _
  · exact l.avoidsSets_decideEntries _

end Leaf

namespace EvalM

variable {α β : Type} {steps : EvalM α} {state state' : EvalState} {a : α} {cause : EvalCause}

theorem run_bind_of_ok (h : steps.run state = .ok a state') (f : α → EvalM β) :
    (steps >>= f).run state = (f a).run state' := by
  simp only [EStateM.run, Bind.bind, EStateM.bind] at h ⊢
  rw [h]

theorem run_bind_of_error (h : steps.run state = .error cause state') (f : α → EvalM β) :
    (steps >>= f).run state = .error cause state' := by
  simp only [EStateM.run, Bind.bind, EStateM.bind] at h ⊢
  rw [h]

section OfArena

variable {make : Arena → Except SetError (α × Arena)}

theorem run_ofArena_eq (make : Arena → Except SetError (α × Arena)) (state : EvalState) :
    (ofArena make).run state = EStateM.run (ofSet (make state.arena) >>= fun made => do
      set { state with arena := made.2 }
      return made.1) state := rfl

theorem run_ofArena_of_ok {made : α × Arena} (h : make state.arena = .ok made) :
    (ofArena make).run state = .ok made.1 { state with arena := made.2 } := by
  rw [run_ofArena_eq, h]
  rfl

theorem run_ofArena_of_error {e : SetError} (h : make state.arena = .error e) :
    (ofArena make).run state = .error (.set e) state := by
  rw [run_ofArena_eq, h]
  rfl

end OfArena

def FailsInSets (steps : EvalM α) : Prop :=
  ∀ state cause state', steps.run state = .error cause state' → ∃ e, cause = .set e

theorem failsInSets_pure (a : α) : FailsInSets (pure a) := by
  intro state cause state' hrun
  cases hrun

theorem FailsInSets.bind {f : α → EvalM β} (h : FailsInSets steps)
    (hf : ∀ a, FailsInSets (f a)) : FailsInSets (steps >>= f) := by
  intro state cause state'' hrun
  cases hsteps : steps.run state with
  | ok a state' =>
    rw [run_bind_of_ok hsteps] at hrun
    exact hf a state' cause state'' hrun
  | error e state' =>
    rw [run_bind_of_error hsteps] at hrun
    cases hrun
    exact h state _ _ hsteps

theorem failsInSets_ofSet (x : Except SetError α) : FailsInSets (ofSet x) := by
  cases x with
  | ok a => exact failsInSets_pure a
  | error e =>
    intro state cause state' hrun
    cases hrun
    exact ⟨e, rfl⟩

theorem failsInSets_ofArena (make : Arena → Except SetError (α × Arena)) :
    FailsInSets (ofArena make) := by
  intro state cause state' hrun
  cases hmake : make state.arena with
  | ok made =>
    rw [run_ofArena_of_ok hmake] at hrun
    cases hrun
  | error e =>
    rw [run_ofArena_of_error hmake] at hrun
    cases hrun
    exact ⟨e, rfl⟩

private theorem failsInSets_noteMissing (id : String) : FailsInSets (noteMissing id) := by
  intro state cause state' hrun
  cases hrun

end EvalM

section Narrowing

open VersionSet Condition

variable {σ : Type} [VersionSet σ] {test : Leaf → Nat → Except EvalCause Bool}
  {subset : String → σ → EvalM σ} {store : SubsetStore}

def Answers (test : Leaf → Nat → Except EvalCause Bool) (l : Leaf) : Prop :=
  ∀ v, Answered (test l) v

private theorem failsInSets_narrowLeaf {l : Leaf} (h : Answers test l) (s : σ) :
    (narrowLeaf test l s).FailsInSets := by
  unfold narrowLeaf
  split
  · have hnone : (retain (test l) s).2 = none := (rejected_eq_none_iff _).2 fun v _ => h v
    cases hretain : retain (test l) s with
    | mk t error? =>
      rw [hretain] at hnone
      cases hnone
      exact EvalM.failsInSets_pure t
  · obtain ⟨b, hb⟩ := h 0
    rw [hb]
    cases b with
    | true => exact EvalM.failsInSets_pure s
    | false => exact EvalM.failsInSets_pure (clear s)

private theorem failsInSets_narrowAny {cs : List Condition}
    (ih : ∀ c ∈ cs, ∀ s : σ, (narrow test subset c s).FailsInSets) (candidates found : σ) :
    (narrowAny test subset candidates found cs).FailsInSets := by
  induction cs generalizing found with
  | nil =>
    rw [narrowAny]
    exact EvalM.failsInSets_pure found
  | cons c cs ihcs =>
    rw [narrowAny]
    refine (ih c (by simp) candidates).bind fun matching => ?_
    refine (EvalM.failsInSets_ofSet _).bind fun next => ?_
    split
    · exact EvalM.failsInSets_pure next
    · exact ihcs (fun d hd => ih d (by simp [hd])) next

private theorem failsInSets_narrowAll {cs : List Condition}
    (ih : ∀ c ∈ cs, ∀ s : σ, (narrow test subset c s).FailsInSets) (s : σ) :
    (narrowAll test subset s cs).FailsInSets := by
  induction cs generalizing s with
  | nil =>
    rw [narrowAll]
    exact EvalM.failsInSets_pure s
  | cons c cs ihcs =>
    rw [narrowAll]
    refine (ih c (by simp) s).bind fun next => ?_
    split
    · exact EvalM.failsInSets_pure next
    · exact ihcs (fun d hd => ih d (by simp [hd])) next

/-- Narrowing by a condition whose leaves have answers fails only of an operation on sets, if
narrowing by subsets does. -/
theorem failsInSets_narrow (hsubset : ∀ id (s : σ), (subset id s).FailsInSets) {c : Condition}
    (h : c.Each (Answers test)) (s : σ) : (narrow test subset c s).FailsInSets := by
  induction c generalizing s with
  | const b =>
    cases b with
    | true =>
      rw [narrow]
      exact EvalM.failsInSets_pure s
    | false =>
      rw [narrow]
      exact EvalM.failsInSets_pure (clear s)
  | leaf l =>
    rw [narrow]
    exact failsInSets_narrowLeaf (each_leaf.1 h) s
  | subset id =>
    rw [narrow]
    exact hsubset id s
  | not c ih =>
    rw [narrow]
    refine (EvalM.failsInSets_ofArena _).bind fun all => ?_
    refine (ih (each_not.1 h) all).bind fun matching => ?_
    exact EvalM.failsInSets_ofSet _
  | any cs ih =>
    rw [narrow]
    refine (EvalM.failsInSets_ofArena _).bind fun candidates => ?_
    refine (EvalM.failsInSets_ofArena _).bind fun _ => ?_
    exact failsInSets_narrowAny (fun c hc => ih c hc (each_any.1 h c hc)) candidates _
  | all cs ih =>
    rw [narrow]
    exact failsInSets_narrowAll (fun c hc => ih c hc (each_all.1 h c hc)) s

def SubsetStore.Each (P : Leaf → Prop) (store : SubsetStore) : Prop :=
  ∀ id subset, store.get? id = some subset → subset.query.condition.Each P

private theorem failsInSets_narrowSubset (h : store.Each (Answers test)) (depth : Nat) (id : String)
    (s : σ) : (narrowSubset test store depth id s).FailsInSets := by
  induction depth generalizing id s with
  | zero =>
    rw [narrowSubset]
    split
    · exact (EvalM.failsInSets_noteMissing id).bind fun _ => EvalM.failsInSets_pure (clear s)
    · exact EvalM.failsInSets_pure (clear s)
  | succ depth ih =>
    rw [narrowSubset]
    split
    · exact (EvalM.failsInSets_noteMissing id).bind fun _ => EvalM.failsInSets_pure (clear s)
    · next subset hsubset => exact failsInSets_narrow ih (h id subset hsubset) s

private theorem failsInSets_narrowAllVersions (hstore : store.Each (Answers test)) {c : Condition}
    (hc : c.Each (Answers test)) (versions : Nat) :
    (narrowAllVersions test store c versions : EvalM σ).FailsInSets := by
  unfold narrowAllVersions
  refine (EvalM.failsInSets_ofArena _).bind fun s => ?_
  exact failsInSets_narrow (failsInSets_narrowSubset hstore store.size) hc (fill s)

end Narrowing

namespace Evaluator

private theorem failsInSets_versionsIn (σ : Type) [VersionSet σ] {ctx : EvalContext} {record : Nat}
    (hstore : ctx.subsets.Each (Answers (ctx.test record)))
    (hc : ctx.condition.Each (Answers (ctx.test record))) :
    (versionsIn σ ctx record).FailsInSets :=
  (failsInSets_narrowAllVersions hstore hc _).bind fun _ => EvalM.failsInSets_pure _

private theorem run_error {arena : Arena} {steps : EvalM (List Nat)} (h : steps.FailsInSets)
    {cause : EvalCause} (hrun : (run arena steps).1 = .error cause) : ∃ e, cause = .set e := by
  unfold run at hrun
  split at hrun
  · cases hrun
  · next e state heq =>
    cases hrun
    exact h _ _ _ heq

/-- An evaluation all of whose tests have answers fails only of an operation on sets. -/
theorem evaluate_error {ctx : EvalContext} {record : Nat}
    (hstore : ctx.subsets.Each (Answers (ctx.test record)))
    (hc : ctx.condition.Each (Answers (ctx.test record))) {ev : Evaluator} {cause : EvalCause}
    (h : (ev.evaluate ctx record).versions = .error cause) : ∃ e, cause = .set e := by
  unfold evaluate at h
  split at h
  · exact run_error (failsInSets_versionsIn WordSet hstore hc) h
  · exact run_error (failsInSets_versionsIn WordsSet hstore hc) h
  · exact run_error (failsInSets_versionsIn SortedSet hstore hc) h

end Evaluator

namespace SubsetStore

/-- A state that a store of subsets can come to, when it is filled with typed queries. -/
inductive Typed : SubsetStore → Prop
  | empty : Typed ∅
  | create {store store' : SubsetStore} {subset : Subset} (h : Typed store)
      (hquery : subset.query.Typed) (heq : store.create subset = .ok store') : Typed store'
  | update {store : SubsetStore} {subset : Subset} (h : Typed store)
      (hquery : subset.query.Typed) : Typed (store.update subset)
  | getOrCreate {store : SubsetStore} (id : String) (h : Typed store) :
      Typed (store.getOrCreate id).2

variable {P : Leaf → Prop} {store : SubsetStore}

private theorem Each.insert (h : store.Each P) {subset : Subset}
    (hsubset : subset.query.condition.Each P)
    (byName : Dict Subset) : (SubsetStore.insert { store with byName } subset).Each P := by
  intro id found hfound
  have hget := Dict.get?_insert store.byId subset.id id subset
  rw [SubsetStore.get?, SubsetStore.insert, hget] at hfound
  split at hfound
  · cases hfound
    exact hsubset
  · exact h id found hfound

private theorem Typed.each (h : store.Typed) : store.Each Leaf.Fits := by
  induction h with
  | empty =>
    intro id subset hsubset
    cases hsubset
  | create _ hquery heq ih =>
    unfold SubsetStore.create at heq
    split at heq
    · cases heq
    · split at heq
      · cases heq
      · cases heq
        exact ih.insert hquery.each _
  | update _ hquery ih =>
    unfold SubsetStore.update
    split
    · exact ih.insert hquery.each _
    · exact ih.insert hquery.each _
  | getOrCreate id _ ih =>
    unfold SubsetStore.getOrCreate
    split
    · exact ih
    · exact ih.insert (Condition.each_const false) _

end SubsetStore

/-- A fitting leaf has an answer at every version of every record of a catalog. -/
theorem Leaf.Fits.answers {catalog : Catalog} (h : catalog.OfKinds) {l : Leaf} (hl : l.Fits)
    (store : SubsetStore) (c : Condition) (record : Nat) :
    Answers (EvalContext.test ⟨catalog, store, c⟩ record) l :=
  fun v => hl.exists_matchesValues (h.getForVersion record v l.property)

/-- Evaluating a typed query on a record of a catalog that was filled with decoded data, over
subsets that were filled with typed queries, meets no datum to which the query does not apply. -/
theorem Query.evaluate_ne_mismatch {catalog : Catalog} (hcatalog : catalog.Reachable)
    {store : SubsetStore} (hstore : store.Typed) {q : Query} (hq : q.Typed) (ev : Evaluator)
    (record : Nat) :
    (ev.evaluate ⟨catalog, store, q.condition⟩ record).versions.mapError EvalCause.code ≠
      .error "CQ_EVAL_TYPE_MISMATCH" := by
  have hanswers {l : Leaf} (hl : l.Fits) :
      Answers (EvalContext.test ⟨catalog, store, q.condition⟩ record) l :=
    hl.answers hcatalog.ofKinds store q.condition record
  cases h : (ev.evaluate ⟨catalog, store, q.condition⟩ record).versions with
  | ok versions => simp [Except.mapError]
  | error cause =>
    obtain ⟨e, rfl⟩ := Evaluator.evaluate_error
      (fun id subset hsubset l hl => hanswers (hstore.each id subset hsubset l hl))
      (fun l hl => hanswers (hq.each l hl)) h
    simp [Except.mapError, EvalCause.code]

def twoCards : Catalog :=
  (Catalog.putStored ∅ .type #[.texts ["Creature — Elf"], .missing]).putStored .cmc
    #[.one (.number (Binary64.ofInt 1)), .one (.number (Binary64.ofInt 6))]

def storedBig : SubsetStore := SubsetStore.insert ∅ ⟨"b", "big", Query.read {} "cmc>5"⟩

theorem Query.evaluate_ne_mismatch_twoCards :
    (twoCards.Reachable ∧ storedBig.Typed ∧
      Query.Typed ((Query.read storedBig.byName "t:elf or -ss:big").simplify storedBig.byId)) ∧
    ((Evaluator.new {} 0).evaluate ⟨twoCards, storedBig, ((Query.read storedBig.byName
      "t:elf or -ss:big").simplify storedBig.byId).condition⟩ 1).versions.mapError EvalCause.code ≠
      .error "CQ_EVAL_TYPE_MISMATCH" := by
  have htypes : Catalog.insert ∅ .type (.list [.list [.text "Creature — Elf"], .null]) = .ok
      (Catalog.putStored ∅ .type #[.texts ["Creature — Elf"], .missing]) := rfl
  have hvalues : (Catalog.putStored ∅ .type #[.texts ["Creature — Elf"], .missing]).insert .cmc
      (.list [.number (.natural 1), .number (.natural 6)]) = .ok twoCards := rfl
  have hcatalog : twoCards.Reachable := (Catalog.Reachable.cleared.insert htypes).insert hvalues
  have hstore : storedBig.Typed := .create .empty (.read {} "cmc>5") rfl
  have hquery := (Query.Typed.read storedBig.byName "t:elf or -ss:big").simplify storedBig.byId
  exact ⟨⟨hcatalog, hstore, hquery⟩, evaluate_ne_mismatch hcatalog hstore hquery (.new {} 0) 1⟩

end CardSearch
