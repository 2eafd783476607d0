import CardSearch.Proofs.Evaluation.Narrowing
import CardSearch.Proofs.VersionSet.Ascending
import CardSearch.Proofs.VersionSet.Bits

/-!
# The versions that an evaluation finds

Evaluating a record, when it ends well, gives the versions that satisfy the query, in ascending
order and however sets are held; a scan of the catalog gives the least of them for every record
that has one. What was evaluated before makes no difference.
-/

namespace CardSearch

namespace EvalContext

/-- Which leaves hold at a version of a record agrees with the values of the record: a property of
versions has a value for the version, a property of the card one for all of them. -/
structure Reads (ctx : EvalContext) (record v : Nat) (leaf : Leaf → Prop) : Prop where
  ofVersion : ∀ l b, l.property.isPerVersion = true →
    l.matchesValues (ctx.catalog.getForVersion record v l.property) = .ok b → (leaf l ↔ b = true)
  ofCard : ∀ l b, l.property.isPerVersion = false →
    l.matchesValues (ctx.catalog.get record l.property) = .ok b → (leaf l ↔ b = true)

/-- Whether the condition is satisfied where the given leaves hold. -/
def Satisfied (ctx : EvalContext) (leaf : Leaf → Prop) : Prop :=
  ctx.condition.Holds leaf (ctx.subsets.Stands leaf)

variable {ctx : EvalContext}

theorem getForVersion_of_card {catalog : Catalog} {record v : Nat} {p : Property}
    (h : p.isPerVersion = false) : catalog.getForVersion record v p = catalog.get record p := by
  have hp : p ≠ .reprint := by
    rintro rfl
    revert h
    decide
  simp [Catalog.getForVersion, hp, h]

private theorem Reads.agrees {record v : Nat} {leaf : Leaf → Prop} (h : ctx.Reads record v leaf) :
    Agrees (ctx.test record) v leaf where
  ofVersion := h.ofVersion
  ofCard l b hp hb := h.ofCard l b hp (by rwa [test, getForVersion_of_card hp] at hb)

/-- Leaves can be taken to hold where they match. -/
theorem reads_matching (ctx : EvalContext) (record v : Nat) :
    ctx.Reads record v (fun l => ctx.test record l v = .ok true) where
  ofVersion l b _ hb := by simp [test, hb]
  ofCard l b hp hb := by simp [test, getForVersion_of_card hp, hb]

end EvalContext

namespace Evaluator

variable {ctx : EvalContext}

/-- The versions found are those below the number of versions that satisfy the condition. -/
def Finds (ctx : EvalContext) (record : Nat) (versions : List Nat) : Prop :=
  versions.Pairwise (· < ·) ∧ ∀ v leaf, ctx.Reads record v leaf →
    (v ∈ versions ↔ v < ctx.versionCount record ∧ ctx.Satisfied leaf)

/-- What all versions that sets of some kind yield have in common holds of those that a run gives. -/
theorem of_run {σ : Type} [VersionSet σ] {record : Nat} {P : List Nat → Prop}
    (hyields : (versionsIn σ ctx record).Yields P) {arena : Arena} {versions : List Nat}
    (hrun : (run arena (versionsIn σ ctx record)).1 = .ok versions) : P versions := by
  unfold run at hrun
  split at hrun
  · next found state hfound =>
    cases hrun
    exact hyields _ _ _ hfound
  · cases hrun

private theorem finds_of_run (h : ctx.subsets.Acyclic) (σ : Type) [VersionSet σ]
    [LawfulVersionSet σ] {arena : Arena} {record : Nat} {versions : List Nat}
    (hrun : (run arena (versionsIn σ ctx record)).1 = .ok versions) :
    Finds ctx record versions := by
  have hyields : (versionsIn σ ctx record).Yields (Finds ctx record) := by
    refine (yields_narrowAllVersions (σ := σ) h ctx.condition _).bind fun s hs => ?_
    exact EvalM.yields_pure ⟨LawfulVersionSet.ascending s,
      fun v leaf hleaf => hs v leaf hleaf.agrees⟩
  exact of_run hyields hrun

/-- Whatever the evaluator, a record is evaluated with lawful sets of some kind. -/
theorem evaluate_eq_run (ev : Evaluator) (ctx : EvalContext) (record : Nat) :
    ∃ (σ : Type) (_ : VersionSet σ) (_ : LawfulVersionSet σ) (arena : Arena),
      (ev.evaluate ctx record).versions = (run arena (versionsIn σ ctx record)).1 ∧
      (ev.evaluate ctx record).missing = (run arena (versionsIn σ ctx record)).2.missing := by
  unfold evaluate
  split
  · exact ⟨WordSet, inferInstance, inferInstance, _, rfl, rfl⟩
  · exact ⟨WordsSet, inferInstance, inferInstance, _, rfl, rfl⟩
  · exact ⟨SortedSet, inferInstance, inferInstance, _, rfl, rfl⟩

theorem ascending_of_evaluate {ev : Evaluator} {record : Nat} {versions : List Nat}
    (heval : (ev.evaluate ctx record).versions = .ok versions) : versions.Pairwise (· < ·) := by
  obtain ⟨σ, _, _, arena, hversions, _⟩ := ev.evaluate_eq_run ctx record
  have hyields : (versionsIn σ ctx record).Yields (List.Pairwise (· < ·)) :=
    EvalM.Yields.bind (P := fun _ => True) (fun _ _ _ _ => trivial) fun s _ =>
      EvalM.yields_pure (LawfulVersionSet.ascending s)
  exact of_run hyields (hversions ▸ heval)

/-- Every kind of set finds the versions that satisfy the condition. -/
theorem finds_of_evaluate (h : ctx.subsets.Acyclic) {ev : Evaluator} {record : Nat}
    {versions : List Nat} (heval : (ev.evaluate ctx record).versions = .ok versions) :
    Finds ctx record versions := by
  obtain ⟨σ, _, _, arena, hversions, _⟩ := ev.evaluate_eq_run ctx record
  exact finds_of_run h σ (hversions ▸ heval)

end Evaluator

namespace Scan

variable {ctx : EvalContext}

/-- A scan that ends well adds the first version that was found for each of the records. -/
theorem firsts_scanFrom {ev : Evaluator} {done : Array (Option Nat)} {missing : Array String}
    {n : Nat} {firsts : Array (Option Nat)}
    (h : (scanFrom ctx ev done missing n).firsts = .ok firsts) :
    firsts.size = done.size + n ∧ (∀ i < done.size, firsts[i]? = done[i]?) ∧
      ∀ i, done.size ≤ i → i < firsts.size → ∃ (ev : Evaluator) (versions : List Nat),
        (ev.evaluate ctx i).versions = .ok versions ∧ firsts[i]? = some versions.head? := by
  induction n generalizing ev done missing with
  | zero =>
    cases h
    exact ⟨rfl, fun i _ => rfl, fun i hi hlt => absurd hlt (Nat.not_lt.2 hi)⟩
  | succ n ih =>
    simp only [scanFrom] at h
    split at h
    · cases h
    · next versions heval =>
      obtain ⟨hsize, hold, hnew⟩ := ih h
      rw [Array.size_push] at hsize hold hnew
      refine ⟨by omega, fun i hi => ?_, fun i hi hlt => ?_⟩
      · rw [hold i (by omega), Array.getElem?_push_lt hi]
        simp [hi]
      · rcases Nat.eq_or_lt_of_le hi with rfl | hi
        · exact ⟨ev, versions, heval, by rw [hold _ (by omega), Array.getElem?_push_size]⟩
        · exact hnew i hi hlt

/-- A scan that ends well gives the first version that was found for each record of the catalog. -/
theorem firsts_all {selection : SetSelection} {bytes : Nat} {firsts : Array (Option Nat)}
    (h : (all ctx selection bytes).firsts = .ok firsts) :
    ctx.catalog.length? = some firsts.size ∧
      ∀ i < firsts.size, ∃ (ev : Evaluator) (versions : List Nat),
        (ev.evaluate ctx i).versions = .ok versions ∧ firsts[i]? = some versions.head? := by
  unfold all at h
  cases hlength : ctx.catalog.length? with
  | none => simp [hlength] at h
  | some length =>
    simp only [hlength] at h
    obtain ⟨hsize, -, hnew⟩ := firsts_scanFrom h
    exact ⟨by simpa using hsize.symm, fun i hi => hnew i (Nat.zero_le i) hi⟩

end Scan

/-- Over a store of subsets without cycles, an evaluation that ends well gives, in ascending order,
exactly the versions below the number of versions of the record that satisfy the condition, whatever
the truth of leaves that could not be decided; and a scan that ends well gives for every record of
the catalog the least such version, if there is one. -/
theorem evaluation_satisfied {ctx : EvalContext} (h : ctx.subsets.Acyclic) :
    (∀ (ev : Evaluator) (record : Nat) (versions : List Nat),
      (ev.evaluate ctx record).versions = .ok versions →
        versions.Pairwise (· < ·) ∧ ∀ v leaf, ctx.Reads record v leaf →
          (v ∈ versions ↔ v < ctx.versionCount record ∧ ctx.Satisfied leaf)) ∧
    ∀ (selection : SetSelection) (bytes : Nat) (firsts : Array (Option Nat)),
      (Scan.all ctx selection bytes).firsts = .ok firsts →
        ctx.catalog.length? = some firsts.size ∧
        ∀ record < firsts.size, ∀ leaf : Nat → Leaf → Prop,
          (∀ v, ctx.Reads record v (leaf v)) →
            ∀ v, firsts[record]? = some (some v) ↔
              IsLeast {w | w < ctx.versionCount record ∧ ctx.Satisfied (leaf w)} v := by
  refine ⟨fun ev record versions heval => Evaluator.finds_of_evaluate h heval,
    fun selection bytes firsts hscan => ?_⟩
  unfold Scan.all at hscan
  cases hlength : ctx.catalog.length? with
  | none => simp [hlength] at hscan
  | some length =>
    simp only [hlength] at hscan
    obtain ⟨hsize, -, hnew⟩ := Scan.firsts_scanFrom hscan
    refine ⟨by simpa using hsize.symm, fun record hrecord leaf hleaf v => ?_⟩
    obtain ⟨ev, versions, heval, hfirst⟩ := hnew record (Nat.zero_le _) hrecord
    obtain ⟨hasc, hmem⟩ := Evaluator.finds_of_evaluate h heval
    rw [hfirst, Option.some_inj, head?_eq_some_iff_isLeast hasc]
    have hset : {w | w ∈ versions} =
        {w | w < ctx.versionCount record ∧ ctx.Satisfied (leaf w)} :=
      Set.ext fun w => hmem w (leaf w) (hleaf w)
    rw [hset]

def printings : EvalContext where
  catalog := (Catalog.putColumn ∅ .rarity #[.rarities [.common, .rare, .mythic]]).putColumn
    .landscape #[.one (.bool true)]
  subsets := (SubsetStore.insert ∅
    ⟨"a", "scarce", ⟨∅, .compare .ne .rarity (.rarity .common)⟩⟩).insert
    ⟨"b", "wide", ⟨∅, .all [.subset "a", .compare .eq .landscape (.bool true)]⟩⟩
  condition :=
    .any [.subset "c", .all [.subset "b", .not (.compare .eq .rarity (.rarity .mythic))]]

theorem acyclic_printings : printings.subsets.Acyclic := by
  refine SubsetStore.acyclic_of_decreasing (fun id => if id = "b" then 1 else 0) ?_
  rintro a b ⟨s, hs, hb⟩
  simp only [printings, SubsetStore.get?, SubsetStore.insert, Dict.get?_insert] at hs
  split at hs
  · next ha =>
    subst ha
    cases hs
    simp only [Condition.mem_references_all] at hb
    simp_all [Condition.references, Condition.compare]
  · split at hs
    · cases hs
      simp [Condition.references, Condition.compare] at hb
    · cases hs

/-- Of the three printings the second one is scarce, wide and not mythic. -/
theorem evaluation_satisfied_printings :
    printings.subsets.Acyclic ∧
    ((Evaluator.new {} 0).evaluate printings 0).versions = .ok [1] ∧
    (Scan.all printings {} 0).firsts = .ok #[some 1] ∧
    (∀ v, v ∈ [1] ↔ v < printings.versionCount 0 ∧
      printings.Satisfied (fun l => printings.test 0 l v = .ok true)) ∧
    IsLeast {w | w < printings.versionCount 0 ∧
      printings.Satisfied (fun l => printings.test 0 l w = .ok true)} 1 := by
  have heval : ((Evaluator.new {} 0).evaluate printings 0).versions = .ok [1] := rfl
  have hscan : (Scan.all printings {} 0).firsts = .ok #[some 1] := rfl
  obtain ⟨hrecords, hscans⟩ := evaluation_satisfied acyclic_printings
  refine ⟨acyclic_printings, heval, hscan, fun v => ?_, ?_⟩
  · exact (hrecords _ 0 [1] heval).2 v _ (printings.reads_matching 0 v)
  · exact ((hscans {} 0 #[some 1] hscan).2 0 (by decide) _
      (fun v => printings.reads_matching 0 v) 1).1 rfl

end CardSearch
