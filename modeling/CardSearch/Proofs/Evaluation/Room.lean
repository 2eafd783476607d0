import CardSearch.Proofs.Evaluation.Faults
import CardSearch.Proofs.Evaluation.Locality
import CardSearch.Proofs.VersionSet.Ascending
import CardSearch.Proofs.VersionSet.Bits

/-!
# The room that an evaluation takes

Sets keep their slots of the arena until the next record begins. A negation copies the set that it
narrows and a disjunction copies it twice; nothing else makes sets, and no operation on sets fails but
for want of room. So where every test has an answer and the arena has room for as many sets as the
condition makes, an evaluation ends well.
-/

namespace CardSearch

def Arena.Gave (sets size : Nat) (arena arena' : Arena) : Prop :=
  ∃ taken ≤ sets, arena' = { arena with used := arena.used + taken * size }

namespace Arena

variable {arena arena' arena'' : Arena} {sets sets' size : Nat}

theorem Gave.refl (sets size : Nat) (arena : Arena) : Gave sets size arena arena :=
  ⟨0, Nat.zero_le sets, by rw [Nat.zero_mul, Nat.add_zero]⟩

private theorem Gave.mono (h : Gave sets size arena arena') (hsets : sets ≤ sets') :
    Gave sets' size arena arena' :=
  let ⟨taken, htaken, heq⟩ := h
  ⟨taken, htaken.trans hsets, heq⟩

private theorem Gave.trans (h : Gave sets size arena arena') (h' : Gave sets' size arena' arena'') :
    Gave (sets + sets') size arena arena'' := by
  obtain ⟨taken, htaken, rfl⟩ := h
  obtain ⟨taken', htaken', rfl⟩ := h'
  exact ⟨taken + taken', Nat.add_le_add htaken htaken', by rw [Nat.add_mul, Nat.add_assoc]⟩

/-- What is missing after sets were given was missing before. -/
theorem Gave.available_lt (h : Gave sets size arena arena')
    (hshort : arena'.available < sets' * size) : arena.available < (sets + sets') * size := by
  obtain ⟨taken, htaken, rfl⟩ := h
  have hle : taken * size ≤ sets * size := Nat.mul_le_mul_right size htaken
  simp only [available] at *
  rw [Nat.add_mul]
  omega

end Arena

namespace EvalM

variable {α β : Type} {P : α → Prop} {Q : β → Prop} {steps : EvalM α} {sets sets' size : Nat} {a : α}

/-- However they end, the steps take at most so many sets of a size from the arena, and they fail of
an operation on sets only where it had no room for these. What they give has a property. -/
def MakesAtMost (steps : EvalM α) (sets size : Nat) (P : α → Prop) : Prop :=
  ∀ state, match steps.run state with
    | .ok a state' => P a ∧ state.arena.Gave sets size state'.arena
    | .error cause state' => (∀ e, cause = .set e → state.arena.available < sets * size) ∧
      state.arena.Gave sets size state'.arena

theorem makesAtMost_pure (h : P a) : MakesAtMost (pure a) sets size P := fun state =>
  ⟨h, .refl sets size state.arena⟩

theorem makesAtMost_throw {cause : EvalCause} (h : ∀ e, cause ≠ .set e) :
    MakesAtMost (throw cause) sets size P := fun state =>
  ⟨fun e he => absurd he (h e), .refl sets size state.arena⟩

theorem MakesAtMost.bind {f : α → EvalM β} (h : MakesAtMost steps sets size P)
    (hf : ∀ a, P a → MakesAtMost (f a) sets' size Q) :
    MakesAtMost (steps >>= f) (sets + sets') size Q := by
  intro state
  have hfirst := h state
  cases hsteps : steps.run state with
  | error cause state' =>
    rw [hsteps] at hfirst
    obtain ⟨hshort, hgave⟩ := hfirst
    rw [run_bind_of_error hsteps]
    refine ⟨fun e he => ?_, hgave.mono (Nat.le_add_right sets sets')⟩
    exact (hshort e he).trans_le (Nat.mul_le_mul_right size (Nat.le_add_right sets sets'))
  | ok a state' =>
    rw [hsteps] at hfirst
    obtain ⟨ha, hgave⟩ := hfirst
    have hrest := hf a ha state'
    rw [run_bind_of_ok hsteps]
    cases hend : (f a).run state' with
    | error cause state'' =>
      rw [hend] at hrest
      exact ⟨fun e he => hgave.available_lt (hrest.1 e he), hgave.trans hrest.2⟩
    | ok b state'' =>
      rw [hend] at hrest
      exact ⟨hrest.1, hgave.trans hrest.2⟩

theorem makesAtMost_ofSet {x : Except SetError α} (hx : x = .ok a) (h : P a) :
    MakesAtMost (ofSet x) sets size P := by
  rw [hx]
  exact makesAtMost_pure h

/-- Making a set for which slots are taken fails only where these are not left. -/
theorem makesAtMost_ofArena {make : Arena → Except SetError (α × Arena)}
    (hmake : ∀ arena, make arena = (arena.take size).map (a, ·)) (h : P a) :
    MakesAtMost (ofArena make) 1 size P := by
  intro state
  by_cases hroom : state.arena.available < size
  · have htake : make state.arena = .error (.arenaExhausted size state.arena.available) := by
      rw [hmake, Arena.take, if_pos hroom]
      rfl
    rw [run_ofArena_of_error htake]
    exact ⟨fun _ _ => by rwa [Nat.one_mul], .refl 1 size _⟩
  · have htake : make state.arena =
        .ok (a, { state.arena with used := state.arena.used + size }) := by
      rw [hmake, Arena.take, if_neg hroom]
      rfl
    rw [run_ofArena_of_ok htake]
    exact ⟨h, 1, le_rfl, by rw [Nat.one_mul]⟩

theorem makesAtMost_noteMissing (id : String) :
    MakesAtMost (noteMissing id) sets size fun _ => True := fun state =>
  ⟨trivial, .refl sets size state.arena⟩

end EvalM

namespace Condition

mutual

/-- How many sets are made, at most, when a set is narrowed by a condition that refers to no
subset. -/
def copies : Condition → Nat
  | const _ => 0
  | not c => 1 + copies c
  | any cs => 2 + copiesOf cs
  | all cs => copiesOf cs
  | leaf _ => 0
  | subset _ => 0

def copiesOf : List Condition → Nat
  | [] => 0
  | c :: cs => copies c + copiesOf cs

end

end Condition

section Narrowing

open VersionSet Condition EvalM

variable {σ : Type} [VersionSet σ] {n : Nat}
  {test : Leaf → Nat → Except EvalCause Bool} {subset : String → σ → EvalM σ}

/-- Narrowing makes so many sets for a number of versions, and gives a set for as many. -/
def MakesCopies (narrowed : EvalM σ) (n copies : Nat) : Prop :=
  narrowed.MakesAtMost copies (slotsFor σ n) (capacity · = n)

private theorem makesAtMost_copy {s : σ} (hs : capacity s = n) :
    MakesCopies (ofArena fun arena => copy arena s) n 1 :=
  makesAtMost_ofArena (fun arena => by rw [copy_eq, hs]) hs

private theorem makesCopies_narrowAll {cs : List Condition}
    (ih : ∀ c ∈ cs, ∀ s : σ, capacity s = n → MakesCopies (narrow test subset c s) n c.copies)
    {s : σ} (hs : capacity s = n) :
    MakesCopies (narrowAll test subset s cs) n (copiesOf cs) := by
  induction cs generalizing s with
  | nil =>
    rw [narrowAll]
    exact makesAtMost_pure hs
  | cons c cs ihcs =>
    obtain ⟨hc, hcs⟩ := List.forall_mem_cons.1 ih
    rw [narrowAll, MakesCopies, copiesOf]
    refine (hc s hs).bind fun next hnext => ?_
    split
    · exact makesAtMost_pure hnext
    · exact ihcs hcs hnext

variable [LawfulVersionSet σ]

theorem makesAtMost_create (h : n ≤ largest σ) :
    MakesCopies (ofArena fun arena => create arena n : EvalM σ) n 1 :=
  makesAtMost_ofArena (fun arena => create_eq n arena h) (LawfulVersionSet.capacity_empty h)

private theorem makesAtMost_union {s t : σ} (hs : capacity s = n) (ht : capacity t = n) :
    MakesCopies (ofSet (union s t)) n 0 := by
  refine makesAtMost_ofSet (a := unite s t) ?_ ((LawfulVersionSet.capacity_unite s t).trans hs)
  rw [union_eq, if_pos (hs.trans ht.symm)]

private theorem makesAtMost_diff {s t : σ} (hs : capacity s = n) (ht : capacity t = n) :
    MakesCopies (ofSet (diff s t)) n 0 := by
  refine makesAtMost_ofSet (a := subtract s t) ?_ ((LawfulVersionSet.capacity_subtract s t).trans hs)
  rw [diff_eq, if_pos (hs.trans ht.symm)]

private theorem makesAtMost_narrowLeaf (htest : ∀ l v, AvoidsSets (test l v)) (l : Leaf) {s : σ}
    (hs : capacity s = n) : MakesCopies (narrowLeaf test l s) n 0 := by
  have hclear : capacity (clear s) = n := (LawfulVersionSet.capacity_clear s).trans hs
  unfold narrowLeaf
  split
  · have hcap := capacity_retain (test l) s
    cases hretain : retain (test l) s with
    | mk t error? =>
      rw [hretain] at hcap
      cases error? with
      | none => exact makesAtMost_pure (hcap.trans hs)
      | some cause =>
        have hrejected : (rejected (test l) (toList s)).2 = some cause :=
          congrArg Prod.snd hretain
        obtain ⟨v, -, hv, -⟩ := (rejected_eq_some_iff (LawfulVersionSet.ascending s) cause).1 hrejected
        exact makesAtMost_throw fun e he => htest l v e (he ▸ hv)
  · split
    · next cause hcause => exact makesAtMost_throw fun e he => htest l 0 e (he ▸ hcause)
    · exact makesAtMost_pure hs
    · exact makesAtMost_pure hclear

private theorem makesCopies_narrowAny {cs : List Condition}
    (ih : ∀ c ∈ cs, ∀ s : σ, capacity s = n → MakesCopies (narrow test subset c s) n c.copies)
    {candidates found : σ} (hcandidates : capacity candidates = n) (hfound : capacity found = n) :
    MakesCopies (narrowAny test subset candidates found cs) n (copiesOf cs) := by
  induction cs generalizing found with
  | nil =>
    rw [narrowAny]
    exact makesAtMost_pure hfound
  | cons c cs ihcs =>
    obtain ⟨hc, hcs⟩ := List.forall_mem_cons.1 ih
    rw [narrowAny, MakesCopies, copiesOf]
    refine (hc candidates hcandidates).bind fun matching hmatching => ?_
    -- the union is made in place
    rw [← Nat.zero_add (copiesOf cs)]
    refine (makesAtMost_union hfound hmatching).bind fun next hnext => ?_
    split
    · exact makesAtMost_pure hnext
    · exact ihcs hcs hnext

/-- Narrowing by a condition makes the copies of its negations and disjunctions, if narrowing by the
subsets that it refers to makes none. -/
theorem makesCopies_narrow (htest : ∀ l v, AvoidsSets (test l v)) {c : Condition}
    (hsubset : ∀ id ∈ c.references, ∀ s : σ, capacity s = n → MakesCopies (subset id s) n 0)
    {s : σ} (hs : capacity s = n) : MakesCopies (narrow test subset c s) n c.copies := by
  induction c generalizing s with
  | const b =>
    cases b with
    | true =>
      rw [narrow]
      exact makesAtMost_pure hs
    | false =>
      rw [narrow]
      exact makesAtMost_pure ((LawfulVersionSet.capacity_clear s).trans hs)
  | leaf l =>
    rw [narrow, copies]
    exact makesAtMost_narrowLeaf htest l hs
  | subset id =>
    rw [narrow, copies]
    exact hsubset id (by simp) s hs
  | not c ih =>
    rw [references_not] at hsubset
    rw [narrow, MakesCopies, copies]
    refine (makesAtMost_copy hs).bind fun all hall => ?_
    -- the difference is made in place
    rw [← Nat.add_zero c.copies]
    exact (ih hsubset hall).bind fun matching hmatching => makesAtMost_diff hs hmatching
  | any cs ih =>
    have hcs : ∀ c ∈ cs, ∀ s : σ, capacity s = n →
        MakesCopies (narrow test subset c s) n c.copies := fun c hc s hs =>
      ih c hc (fun id hid => hsubset id (mem_references_any.2 ⟨c, hc, hid⟩)) hs
    rw [narrow, MakesCopies, copies, show 2 + copiesOf cs = 1 + (1 + copiesOf cs) by omega]
    refine (makesAtMost_copy hs).bind fun candidates hcandidates => ?_
    refine (makesAtMost_copy hs).bind fun _ _ => ?_
    exact makesCopies_narrowAny hcs hcandidates ((LawfulVersionSet.capacity_clear s).trans hs)
  | all cs ih =>
    have hcs : ∀ c ∈ cs, ∀ s : σ, capacity s = n →
        MakesCopies (narrow test subset c s) n c.copies := fun c hc s hs =>
      ih c hc (fun id hid => hsubset id (mem_references_all.2 ⟨c, hc, hid⟩)) hs
    rw [narrow, MakesCopies, copies]
    exact makesCopies_narrowAll hcs hs

theorem makesCopies_narrowSubset (id : String) {s : σ} (hs : capacity s = n) :
    MakesCopies (narrowSubset test ∅ 0 id s) n 0 := by
  have hget : (∅ : SubsetStore).get? id = none := rfl
  rw [narrowSubset, hget, MakesCopies, ← Nat.add_zero 0]
  refine (makesAtMost_noteMissing id).bind fun _ _ => ?_
  exact makesAtMost_pure ((LawfulVersionSet.capacity_clear s).trans hs)

end Narrowing

namespace EvalContext

private theorem avoidsSets_test (ctx : EvalContext) (record : Nat) (l : Leaf) (v : Nat) :
    AvoidsSets (ctx.test record l v) :=
  l.avoidsSets_matchesValues _

end EvalContext

namespace Evaluator

open VersionSet EvalM

variable {ctx : EvalContext} {record : Nat}

/-- Without stored subsets, finding the versions of a record makes a set of all of them and the
copies of the condition. -/
theorem makesAtMost_versionsIn (σ : Type) [VersionSet σ] [LawfulVersionSet σ]
    (hsubsets : ctx.subsets = ∅) (hcount : ctx.versionCount record ≤ largest σ) :
    (versionsIn σ ctx record).MakesAtMost (1 + ctx.condition.copies)
      (slotsFor σ (ctx.versionCount record)) fun _ => True := by
  have hnarrow : MakesCopies (narrowAllVersions (ctx.test record) ctx.subsets ctx.condition
      (ctx.versionCount record) : EvalM σ) (ctx.versionCount record) (1 + ctx.condition.copies) := by
    rw [narrowAllVersions, hsubsets]
    refine (makesAtMost_create hcount).bind fun s hs => ?_
    have hfill : capacity (fill s) = _ := (LawfulVersionSet.capacity_fill s).trans hs
    refine makesCopies_narrow (ctx.avoidsSets_test record) (fun id _ s hs => ?_) hfill
    exact makesCopies_narrowSubset id hs
  rw [versionsIn, ← Nat.add_zero (1 + _)]
  exact hnarrow.bind fun s _ => makesAtMost_pure trivial

/-- What is left of an arena after a run that makes so many sets, however it ends. -/
theorem gave_run {steps : EvalM (List Nat)} {sets size : Nat} {P : List Nat → Prop}
    (h : steps.MakesAtMost sets size P) (arena : Arena) :
    arena.Gave sets size (run arena steps).2.arena ∧
      ∀ e, (run arena steps).1 = .error (.set e) → arena.available < sets * size := by
  have hstate := h { arena }
  unfold run
  split at hstate
  · next versions state hrun =>
    rw [hrun]
    exact ⟨hstate.2, nofun⟩
  · next cause state hrun =>
    rw [hrun]
    refine ⟨hstate.2, fun e he => hstate.1 e ?_⟩
    cases he
    rfl

end Evaluator

/-- How many slots a set for a number of versions takes. -/
def SetKind.slotsFor (kind : SetKind) (versions : Nat) : Nat :=
  match kind with
  | .word => 0
  | .words => wordsFor versions
  | .sorted => mostVersions

namespace Evaluator

variable {ctx : EvalContext} {record : Nat}

/-- The arena that sets of a kind are made from. A set in a word needs none. -/
def arenaOf (ev : Evaluator) : SetKind → Arena
  | .word => { slots := 0 }
  | .words => ev.wordsArena
  | .sorted => ev.sortedArena

def kindFor (ev : Evaluator) (versions : Nat) : SetKind := ev.selection.choose versions

/-- The arena has room for so many sets of the kind that is chosen for a number of versions. -/
def HasRoom (ev : Evaluator) (sets versions : Nat) : Prop :=
  sets * (ev.kindFor versions).slotsFor versions ≤ (ev.arenaOf (ev.kindFor versions)).slots

private theorem le_of_choose_eq_word {selection : SetSelection} {versions : Nat}
    (h : selection.choose versions = .word) : versions ≤ 32 := by
  unfold SetSelection.choose at h
  split at h
  · next hsmall => exact of_decide_eq_true (Bool.and_eq_true_iff.1 hsmall).2
  · split at h <;> cases h

/-- A record starts with the whole arena, takes the sets of the condition from it, and does not fail
of an operation on sets if there is room for them. -/
theorem evaluate_gave (hsubsets : ctx.subsets = ∅) (hcount : ctx.versionCount record ≤ mostVersions)
    (ev : Evaluator) :
    (∃ taken ≤ 1 + ctx.condition.copies,
      ((ev.evaluate ctx record).evaluator.arenaOf (ev.kindFor (ctx.versionCount record))).used =
        taken * (ev.kindFor (ctx.versionCount record)).slotsFor (ctx.versionCount record)) ∧
    (ev.HasRoom (1 + ctx.condition.copies) (ctx.versionCount record) →
      ∀ e, (ev.evaluate ctx record).versions ≠ .error (.set e)) := by
  unfold HasRoom kindFor evaluate
  cases hchoose : ev.selection.choose (ctx.versionCount record) with
  | word =>
    have hmakes := makesAtMost_versionsIn WordSet hsubsets (le_of_choose_eq_word hchoose)
    have hgave := gave_run hmakes { slots := 0 }
    refine ⟨⟨0, Nat.zero_le _, (Nat.zero_mul _).symm⟩, fun _ e he => ?_⟩
    exact Nat.not_lt.2 (Nat.le_of_eq (Nat.mul_zero _)) (hgave.2 e he)
  | words =>
    have hmakes := makesAtMost_versionsIn WordsSet hsubsets hcount
    obtain ⟨⟨taken, htaken, hused⟩, hfails⟩ := gave_run hmakes ev.wordsArena.reset
    refine ⟨⟨taken, htaken, ?_⟩, fun hroom e he => Nat.not_lt.2 hroom (hfails e he)⟩
    exact (congrArg Arena.used hused).trans (Nat.zero_add _)
  | sorted =>
    have hmakes := makesAtMost_versionsIn SortedSet hsubsets hcount
    obtain ⟨⟨taken, htaken, hused⟩, hfails⟩ := gave_run hmakes ev.sortedArena.reset
    refine ⟨⟨taken, htaken, ?_⟩, fun hroom e he => Nat.not_lt.2 hroom (hfails e he)⟩
    exact (congrArg Arena.used hused).trans (Nat.zero_add _)

/-- An evaluation of a condition that refers to no subset, all of whose tests have answers, ends well
if there is room for the sets that it makes. -/
theorem exists_versions {ev : Evaluator} (hrefs : ctx.condition.references = [])
    (h : ctx.condition.Each (Answers (ctx.test record)))
    (hcount : ctx.versionCount record ≤ mostVersions)
    (hroom : ev.HasRoom (1 + ctx.condition.copies) (ctx.versionCount record)) :
    ∃ versions, (ev.evaluate ctx record).versions = .ok versions := by
  have hnone : ev.evaluate ctx record = ev.evaluate ⟨ctx.catalog, ∅, ctx.condition⟩ record :=
    ev.evaluate_of_references_eq_nil hrefs ctx.subsets ∅
  rw [hnone]
  cases hend : (ev.evaluate ⟨ctx.catalog, ∅, ctx.condition⟩ record).versions with
  | ok versions => exact ⟨versions, rfl⟩
  | error cause =>
    obtain ⟨e, rfl⟩ := @evaluate_error ⟨ctx.catalog, ∅, ctx.condition⟩ record
      (fun id subset hsubset => by cases hsubset) h ev cause hend
    have hfails := (@evaluate_gave ⟨ctx.catalog, ∅, ctx.condition⟩ record rfl hcount ev).2 hroom
    exact absurd hend (hfails e)

/-- Arenas of the usual size have room for many sets. -/
theorem hasRoom_new (selection : SetSelection) {sets versions : Nat} (hsets : sets ≤ 128)
    (hcount : versions ≤ mostVersions) :
    (new selection defaultArenaBytes).HasRoom sets versions := by
  unfold HasRoom kindFor
  cases (new selection defaultArenaBytes).selection.choose versions with
  | word => exact Nat.le_of_eq (Nat.mul_zero _)
  | words =>
    have hwords : wordsFor versions ≤ 32 := by
      unfold wordsFor
      unfold mostVersions at hcount
      omega
    have harena : 128 * 32 ≤ WordsSet.arenaSlots defaultArenaBytes := by decide
    exact Nat.le_trans (Nat.mul_le_mul hsets hwords) harena
  | sorted =>
    have harena : 128 * mostVersions ≤ SortedSet.arenaSlots defaultArenaBytes := by decide
    exact Nat.le_trans (Nat.mul_le_mul_right mostVersions hsets) harena

end Evaluator

end CardSearch
