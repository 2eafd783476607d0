import CardSearch.Proofs.Evaluation.Room
import CardSearch.Proofs.Evaluation.Unrolling

/-!
# How much room any evaluation takes

Over stored subsets without cycles an evaluation makes the sets of one tree: that of the condition,
with every reference replaced by what is stored. One set holds all versions, each negation of the tree
makes one and each disjunction two. They all come from an arena that was reset, so this bound does not
depend on the records before, whether these were evaluated well or not.
-/

namespace CardSearch

namespace Condition

mutual

def nodes : Condition → List Condition
  | const b => [const b]
  | not c => not c :: nodes c
  | any cs => any cs :: nodesOf cs
  | all cs => all cs :: nodesOf cs
  | leaf l => [leaf l]
  | subset id => [subset id]

def nodesOf : List Condition → List Condition
  | [] => []
  | c :: cs => nodes c ++ nodesOf cs

end

def countOf (kind : String) (c : Condition) : Nat := (c.nodes.map Condition.kind).count kind

private theorem leaf_kind_ne (l : Leaf) : l.kind ≠ "not" ∧ l.kind ≠ "or" := by
  cases l with
  | compare op => cases op <;> simp [Leaf.kind, CompareOp.label]
  | contains => simp [Leaf.kind]
  | parity which => cases which <;> simp [Leaf.kind, Parity.label]
  | range => simp [Leaf.kind]

/-- A negation makes one copy and a disjunction two. -/
theorem copies_eq (c : Condition) : c.copies = c.countOf "not" + 2 * c.countOf "or" := by
  have hcopiesOf (cs : List Condition)
      (ih : ∀ c ∈ cs, c.copies = c.countOf "not" + 2 * c.countOf "or") :
      copiesOf cs = ((nodesOf cs).map Condition.kind).count "not" +
        2 * ((nodesOf cs).map Condition.kind).count "or" := by
    induction cs with
    | nil => rfl
    | cons c cs ihcs =>
      obtain ⟨hc, hcs⟩ := List.forall_mem_cons.1 ih
      have hrest := ihcs hcs
      rw [countOf, countOf] at hc
      rw [copiesOf, nodesOf, List.map_append, List.count_append, List.count_append]
      omega
  induction c with
  | const b => cases b <;> rfl
  | leaf l =>
    obtain ⟨hnot, hor⟩ := leaf_kind_ne l
    simp [copies, countOf, nodes, kind, hnot, hor]
  | subset id => rfl
  | not c ih =>
    simp only [countOf] at ih
    simp only [copies, countOf, nodes, List.map_cons, kind, ne_eq, String.reduceEq, not_false_eq_true,
      List.count_cons_of_ne, List.count_cons_self]
    omega
  | any cs ih =>
    have hcs := hcopiesOf cs ih
    simp only [copies, countOf, nodes, List.map_cons, kind, ne_eq, String.reduceEq, not_false_eq_true,
      List.count_cons_of_ne, List.count_cons_self]
    omega
  | all cs ih =>
    have hcs := hcopiesOf cs ih
    simp only [copies, countOf, nodes, List.map_cons, kind, ne_eq, String.reduceEq, not_false_eq_true,
      List.count_cons_of_ne]
    omega

end Condition

namespace EvalContext

/-- How many sets an evaluation makes at most: one of all versions, one for each negation and two for
each disjunction, counted in a stored condition wherever it is referred to. -/
def setBound (ctx : EvalContext) : Nat :=
  1 + (ctx.condition.replace ctx.subsets.tree).countOf "not" +
    2 * (ctx.condition.replace ctx.subsets.tree).countOf "or"

def unrolled (ctx : EvalContext) : EvalContext :=
  ⟨ctx.catalog, ∅, ctx.condition.replace ctx.subsets.tree⟩

private theorem setBound_eq (ctx : EvalContext) :
    ctx.setBound = 1 + ctx.unrolled.condition.copies := by
  rw [setBound, unrolled, Condition.copies_eq, Nat.add_assoc]

end EvalContext

namespace Evaluator

open VersionSet EvalM

variable {ctx : EvalContext} {record : Nat}

/-- An evaluator that chooses the same sets and has as much room for them. -/
structure Alike (ev ev' : Evaluator) : Prop where
  selection : ev'.selection = ev.selection
  slots : ∀ kind, (ev'.arenaOf kind).slots = (ev.arenaOf kind).slots

theorem Alike.refl (ev : Evaluator) : Alike ev ev := ⟨rfl, fun _ => rfl⟩

private theorem Alike.trans {ev ev' ev'' : Evaluator} (h : Alike ev ev') (h' : Alike ev' ev'') :
    Alike ev ev'' :=
  ⟨h'.selection.trans h.selection, fun kind => (h'.slots kind).trans (h.slots kind)⟩

private theorem Alike.hasRoom_iff {ev ev' : Evaluator} (h : Alike ev ev') (sets versions : Nat) :
    ev'.HasRoom sets versions ↔ ev.HasRoom sets versions := by
  rw [HasRoom, HasRoom, kindFor, kindFor, h.selection, h.slots]

/-- An arena keeps its size, also where there are more versions than a set can hold. -/
theorem slots_run (σ : Type) [VersionSet σ] [LawfulVersionSet σ] (hsubsets : ctx.subsets = ∅)
    (arena : Arena) : (run arena (versionsIn σ ctx record)).2.arena.slots = arena.slots := by
  by_cases hcount : ctx.versionCount record ≤ largest σ
  · obtain ⟨⟨taken, -, hused⟩, -⟩ := gave_run (makesAtMost_versionsIn σ hsubsets hcount) arena
    rw [hused]
  · have hcreate : (ofArena fun arena => create arena (ctx.versionCount record) : EvalM σ).run
        { arena } = .error (.set (.capacityExceeded (ctx.versionCount record) (largest σ)))
          { arena } :=
      run_ofArena_of_error (create_eq_error (ctx.versionCount record) arena hcount)
    rw [run, versionsIn, narrowAllVersions, run_bind_of_error (run_bind_of_error hcreate _)]

private theorem alike_evaluate (h : ctx.subsets.Acyclic) (ev : Evaluator) (record : Nat) :
    ev.Alike (ev.evaluate ctx record).evaluator := by
  rw [show ev.evaluate ctx record = ev.evaluate ctx.unrolled record from
    ev.evaluate_tree h ctx.catalog ctx.condition record]
  unfold evaluate
  split
  · exact .refl ev
  · refine ⟨rfl, fun kind => ?_⟩
    cases kind with
    | words => exact slots_run WordsSet rfl _
    | word | sorted => rfl
  · refine ⟨rfl, fun kind => ?_⟩
    cases kind with
    | sorted => exact slots_run SortedSet rfl _
    | word | words => rfl

/-- The evaluator after some records, whatever came of them. -/
def after (ev : Evaluator) (ctx : EvalContext) (records : List Nat) : Evaluator :=
  records.foldl (fun ev record => (ev.evaluate ctx record).evaluator) ev

private theorem alike_after (h : ctx.subsets.Acyclic) (ev : Evaluator) (records : List Nat) :
    ev.Alike (ev.after ctx records) := by
  induction records generalizing ev with
  | nil => exact .refl ev
  | cons record records ih => exact (alike_evaluate h ev record).trans (ih _)

/-- Over stored subsets without cycles, an evaluation of a record takes no more sets from the arena
than there are in the bound that the tree of its condition gives, whatever was evaluated before and
however it ends. If the arena has room for these it does not fail of an operation on sets. -/
theorem evaluate_within_bound (h : ctx.subsets.Acyclic) :
    ctx.subsets.Unrolls ctx.subsets.tree ∧
    ∀ record, ctx.versionCount record ≤ mostVersions → ∀ (ev : Evaluator) (earlier : List Nat),
      (∃ taken ≤ ctx.setBound,
        (((ev.after ctx earlier).evaluate ctx record).evaluator.arenaOf
            (ev.kindFor (ctx.versionCount record))).used =
          taken * (ev.kindFor (ctx.versionCount record)).slotsFor (ctx.versionCount record)) ∧
      (ev.HasRoom ctx.setBound (ctx.versionCount record) →
        ((ev.after ctx earlier).evaluate ctx record).versions.mapError EvalCause.code ≠
          .error "CQ_EVAL_SET_FAILURE") := by
  refine ⟨h.unrolls_tree, fun record hcount ev earlier => ?_⟩
  have halike := alike_after h ev earlier
  rw [← halike.hasRoom_iff, kindFor, ← halike.selection, ctx.setBound_eq]
  have htree : (ev.after ctx earlier).evaluate ctx record =
      (ev.after ctx earlier).evaluate ctx.unrolled record :=
    (ev.after ctx earlier).evaluate_tree h ctx.catalog ctx.condition record
  obtain ⟨hgave, hends⟩ :=
    @evaluate_gave ctx.unrolled record rfl hcount (ev.after ctx earlier)
  rw [htree]
  refine ⟨hgave, fun hroom hfails => ?_⟩
  cases hversions : ((ev.after ctx earlier).evaluate ctx.unrolled record).versions with
  | ok versions =>
    rw [hversions] at hfails
    cases hfails
  | error cause =>
    cases cause with
    | set e => exact hends hroom e hversions
    | datum | literal | pair | lengthUnknown =>
      rw [hversions] at hfails
      simp [Except.mapError, EvalCause.code] at hfails

end Evaluator

/-- A card with three printings and a query that refers twice to a subset, which refers twice to
another. -/
def reprinted : EvalContext where
  catalog := Catalog.putColumn ∅ .rarity #[.rarities [.common, .rare, .mythic]]
  subsets := (SubsetStore.insert ∅
    ⟨"a", "scarce", ⟨∅, .not (.compare .eq .rarity (.rarity .common))⟩⟩).insert
    ⟨"b", "either", ⟨∅, .any [.not (.subset "a"), .subset "a"]⟩⟩
  condition := .any [.not (.subset "b"), .all [.subset "b", .subset "a"]]

private theorem acyclic_reprinted : reprinted.subsets.Acyclic := by
  refine SubsetStore.acyclic_of_decreasing (fun id => if id = "b" then 1 else 0) ?_
  rintro a b ⟨s, hs, hb⟩
  simp only [reprinted, SubsetStore.get?, SubsetStore.insert, Dict.get?_insert] at hs
  split at hs
  · next ha =>
    subst ha
    cases hs
    simp only [Condition.mem_references_any] at hb
    simp_all [Condition.references]
  · split at hs
    · cases hs
      simp [Condition.references, Condition.compare] at hb
    · cases hs

def roomFor (sets : Nat) : Evaluator where
  selection := { smallInWord := false }
  wordsArena := { slots := sets }
  sortedArena := { slots := 0 }

theorem evaluate_within_bound_reprinted :
    reprinted.subsets.Acyclic ∧ reprinted.setBound = 15 ∧ reprinted.versionCount 0 ≤ mostVersions ∧
    (roomFor 15).HasRoom 15 (reprinted.versionCount 0) ∧
    (∃ taken ≤ 15, ((((roomFor 15).after reprinted [0, 7, 0]).evaluate reprinted 0).evaluator.arenaOf
      .words).used = taken * 1) ∧
    (((roomFor 15).after reprinted [0, 7, 0]).evaluate reprinted 0).versions.mapError
      EvalCause.code ≠ .error "CQ_EVAL_SET_FAILURE" := by
  have hbound : reprinted.setBound = 15 := by rfl
  have hcount : reprinted.versionCount 0 ≤ mostVersions := by decide
  have hroom : (roomFor 15).HasRoom 15 (reprinted.versionCount 0) := Nat.le_refl 15
  obtain ⟨htaken, hfails⟩ :=
    (Evaluator.evaluate_within_bound acyclic_reprinted).2 0 hcount (roomFor 15) [0, 7, 0]
  rw [hbound] at htaken hfails
  exact ⟨acyclic_reprinted, hbound, hcount, hroom, htaken, hfails hroom⟩

/-- With room for one set less the evaluation fails. -/
example : ((roomFor 15).evaluate reprinted 0).versions = .ok [1, 2] ∧
    ((roomFor 14).evaluate reprinted 0).versions = .error (.set (.arenaExhausted 1 0)) :=
  ⟨by cbv, by cbv⟩

end CardSearch
