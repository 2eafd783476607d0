import CardSearch.Proofs.Evaluation.Records

/-!
# Evaluations in step

How sets are held does not show. Two evaluations of a record that hold their sets in different
ways, or in arenas of different sizes, ask the same questions in the same order and come to the
same end, unless an operation on sets fails in one of them.
-/

namespace CardSearch

namespace EvalM

variable {α α' β β' : Type} {R : α → α' → Prop}

/-- Two outcomes go together: both are good and related, or both are the same failure, and the same
subsets were looked for in vain; or an operation on sets failed in one of them. -/
inductive InStep (R : α → α' → Prop) : EStateM.Result EvalCause EvalState α →
    EStateM.Result EvalCause EvalState α' → Prop
  | ok {a : α} {a' : α'} {s t : EvalState} (h : R a a') (missing : s.missing = t.missing) :
      InStep R (.ok a s) (.ok a' t)
  | error (cause : EvalCause) {s t : EvalState} (missing : s.missing = t.missing) :
      InStep R (.error cause s) (.error cause t)
  | left (e : SetError) (s : EvalState) (r) : InStep R (.error (.set e) s) r
  | right (e : SetError) (t : EvalState) (r) : InStep R r (.error (.set e) t)

/-- Started with the same missing subsets, in any two arenas, the steps end in step. -/
def Agree (R : α → α' → Prop) (x : EvalM α) (y : EvalM α') : Prop :=
  ∀ s t : EvalState, s.missing = t.missing → InStep R (x.run s) (y.run t)

theorem agree_pure {a : α} {a' : α'} (h : R a a') : Agree R (pure a) (pure a') :=
  fun _ _ hmissing => .ok h hmissing

theorem agree_throw (cause : EvalCause) : Agree R (throw cause) (throw cause) :=
  fun _ _ hmissing => .error cause hmissing

theorem Agree.bind {R' : β → β' → Prop} {x : EvalM α} {y : EvalM α'} {f : α → EvalM β}
    {g : α' → EvalM β'} (h : Agree R x y) (hf : ∀ a a', R a a' → Agree R' (f a) (g a')) :
    Agree R' (x >>= f) (y >>= g) := by
  intro s t hmissing
  have hstep := h s t hmissing
  simp only [EStateM.run, Bind.bind, EStateM.bind] at hstep ⊢
  generalize x s = r at hstep ⊢
  generalize y t = r' at hstep ⊢
  cases hstep with
  | ok hR hmissing' => exact hf _ _ hR _ _ hmissing'
  | error cause hmissing' => exact .error cause hmissing'
  | left e s r => exact .left e _ _
  | right e t r => exact .right e _ _

theorem agree_ofSet {x : Except SetError α} {y : Except SetError α'}
    (h : ∀ a a', x = .ok a → y = .ok a' → R a a') : Agree R (ofSet x) (ofSet y) := by
  intro s t hmissing
  cases x with
  | error e => exact .left e s _
  | ok a =>
    cases y with
    | error e => exact .right e t _
    | ok a' => exact .ok (h a a' rfl rfl) hmissing

theorem agree_ofArena {make : Arena → Except SetError (α × Arena)}
    {make' : Arena → Except SetError (α' × Arena)}
    (h : ∀ arena arena' made made', make arena = .ok made → make' arena' = .ok made' →
      R made.1 made'.1) : Agree R (ofArena make) (ofArena make') := by
  intro s t hmissing
  change InStep R
    (EStateM.run (ofSet (make s.arena) >>= fun made => do
      set { s with arena := made.2 }
      return made.1) s)
    (EStateM.run (ofSet (make' t.arena) >>= fun made => do
      set { t with arena := made.2 }
      return made.1) t)
  cases hmake : make s.arena with
  | error e => exact .left e s _
  | ok made =>
    cases hmake' : make' t.arena with
    | error e => exact .right e t _
    | ok made' => exact .ok (h _ _ made made' hmake hmake') hmissing

theorem agree_noteMissing (id : String) :
    Agree (fun _ _ => True) (noteMissing id) (noteMissing id) :=
  fun _ _ hmissing => .ok trivial (congrArg (·.push id) hmissing)

end EvalM

open VersionSet EvalM

section Narrowing

variable {σ τ : Type} [VersionSet σ] [VersionSet τ]

/-- Two sets, each held in its own way, have the same members below the same capacity. -/
structure SameSet (s : σ) (t : τ) : Prop where
  capacity_eq : capacity s = capacity t
  toList_eq : toList s = toList t

theorem agree_copy {s : σ} {t : τ} (h : SameSet s t) :
    Agree SameSet (ofArena fun arena => copy arena s) (ofArena fun arena => copy arena t) := by
  refine agree_ofArena fun arena arena' made made' hmade hmade' => ?_
  rw [eq_of_copy hmade, eq_of_copy hmade']
  exact h

variable [LawfulVersionSet σ] [LawfulVersionSet τ] {s : σ} {t : τ}

namespace SameSet

theorem size_eq (h : SameSet s t) : size s = size t := by
  rw [LawfulVersionSet.size_eq, LawfulVersionSet.size_eq, h.toList_eq]

theorem isEmpty_eq (h : SameSet s t) : isEmpty s = isEmpty t := by
  rw [isEmpty, isEmpty, h.size_eq]

theorem clear (h : SameSet s t) : SameSet (clear s) (clear t) where
  capacity_eq := by simp [h.capacity_eq]
  toList_eq := by simp

theorem fill (h : SameSet s t) : SameSet (fill s) (fill t) where
  capacity_eq := by simp [h.capacity_eq]
  toList_eq := by simp [h.capacity_eq]

/-- Sets that have the same members remain so when the same members are left. -/
theorem of_mem_iff {s' : σ} {t' : τ} (hcap : capacity s' = capacity t')
    (hmem : ∀ v, v ∈ toList s' ↔ v ∈ toList t') : SameSet s' t' :=
  ⟨hcap, eq_of_mem_iff_of_ascending (LawfulVersionSet.ascending s')
    (LawfulVersionSet.ascending t') hmem⟩

private theorem unite {s₂ : σ} {t₂ : τ} (h : SameSet s t) (h₂ : SameSet s₂ t₂)
    (hs : capacity s = capacity s₂) : SameSet (unite s s₂) (unite t t₂) := by
  have ht : capacity t = capacity t₂ := h.capacity_eq ▸ h₂.capacity_eq ▸ hs
  refine of_mem_iff (by simp [h.capacity_eq]) fun v => ?_
  rw [LawfulVersionSet.mem_unite hs, LawfulVersionSet.mem_unite ht, h.toList_eq, h₂.toList_eq]

private theorem subtract {s₂ : σ} {t₂ : τ} (h : SameSet s t) (h₂ : SameSet s₂ t₂)
    (hs : capacity s = capacity s₂) : SameSet (subtract s s₂) (subtract t t₂) := by
  have ht : capacity t = capacity t₂ := h.capacity_eq ▸ h₂.capacity_eq ▸ hs
  refine of_mem_iff (by simp [h.capacity_eq]) fun v => ?_
  rw [LawfulVersionSet.mem_subtract hs, LawfulVersionSet.mem_subtract ht, h.toList_eq,
    h₂.toList_eq]

/-- The questions that thin a set out depend on its members only. -/
theorem retain {ε : Type} (keep : Nat → Except ε Bool) (h : SameSet s t) :
    SameSet (retain keep s).1 (retain keep t).1 ∧ (retain keep s).2 = (retain keep t).2 := by
  refine ⟨of_mem_iff ?_ fun v => ?_, ?_⟩
  · rw [capacity_retain, capacity_retain, h.capacity_eq]
  · rw [mem_retain, mem_retain, h.toList_eq]
  · simp only [VersionSet.retain, h.toList_eq]

end SameSet

private theorem agree_union {s₂ : σ} {t₂ : τ} (h : SameSet s t) (h₂ : SameSet s₂ t₂) :
    Agree SameSet (ofSet (union s s₂)) (ofSet (union t t₂)) := by
  refine agree_ofSet fun a a' ha ha' => ?_
  rw [union_eq] at ha ha'
  split at ha
  · next hs =>
    rw [if_pos (h.capacity_eq ▸ h₂.capacity_eq ▸ hs)] at ha'
    cases ha
    cases ha'
    exact h.unite h₂ hs
  · cases ha

private theorem agree_diff {s₂ : σ} {t₂ : τ} (h : SameSet s t) (h₂ : SameSet s₂ t₂) :
    Agree SameSet (ofSet (diff s s₂)) (ofSet (diff t t₂)) := by
  refine agree_ofSet fun a a' ha ha' => ?_
  rw [diff_eq] at ha ha'
  split at ha
  · next hs =>
    rw [if_pos (h.capacity_eq ▸ h₂.capacity_eq ▸ hs)] at ha'
    cases ha
    cases ha'
    exact h.subtract h₂ hs
  · cases ha

theorem agree_create (versions : Nat) :
    Agree (SameSet (σ := σ) (τ := τ)) (ofArena fun arena => create arena versions)
      (ofArena fun arena => create arena versions) := by
  refine agree_ofArena fun arena arena' made made' hmade hmade' => ?_
  obtain ⟨hcap, hnil⟩ := empty_of_create hmade
  obtain ⟨hcap', hnil'⟩ := empty_of_create hmade'
  exact ⟨hcap.trans hcap'.symm, hnil.trans hnil'.symm⟩

variable {test : Leaf → Nat → Except EvalCause Bool} {subset : String → σ → EvalM σ}
  {subset' : String → τ → EvalM τ}

private theorem agree_narrowLeaf (l : Leaf) (h : SameSet s t) :
    Agree SameSet (narrowLeaf test l s) (narrowLeaf test l t) := by
  unfold narrowLeaf
  split
  · obtain ⟨hsame, herror⟩ := h.retain (test l)
    cases hs : retain (test l) s with
    | mk s' error =>
      cases ht : retain (test l) t with
      | mk t' error' =>
        rw [hs, ht] at hsame herror
        cases herror
        cases error with
        | none => exact agree_pure hsame
        | some e => exact agree_throw e
  · cases test l 0 with
    | error e => exact agree_throw e
    | ok b =>
      cases b with
      | true => exact agree_pure h
      | false => exact agree_pure h.clear

/-- Both stop at the same condition, since they have found as many versions by then. -/
theorem agree_narrowAny {cs : List Condition}
    (ih : ∀ c ∈ cs, ∀ (s : σ) (t : τ), SameSet s t →
      Agree SameSet (narrow test subset c s) (narrow test subset' c t))
    {candidates found : σ} {candidates' found' : τ} (hcandidates : SameSet candidates candidates')
    (hfound : SameSet found found') :
    Agree SameSet (narrowAny test subset candidates found cs)
      (narrowAny test subset' candidates' found' cs) := by
  induction cs generalizing found found' with
  | nil =>
    rw [narrowAny, narrowAny]
    exact agree_pure hfound
  | cons c cs ihcs =>
    rw [narrowAny, narrowAny]
    refine (ih c (by simp) _ _ hcandidates).bind fun matching matching' hmatching => ?_
    refine (agree_union hfound hmatching).bind fun next next' hnext => ?_
    rw [hnext.size_eq, hcandidates.size_eq]
    split
    · exact agree_pure hnext
    · exact ihcs (fun d hd => ih d (by simp [hd])) hnext

/-- Both stop at the same condition, since they are left with nothing at the same time. -/
theorem agree_narrowAll {cs : List Condition}
    (ih : ∀ c ∈ cs, ∀ (s : σ) (t : τ), SameSet s t →
      Agree SameSet (narrow test subset c s) (narrow test subset' c t))
    (h : SameSet s t) :
    Agree SameSet (narrowAll test subset s cs) (narrowAll test subset' t cs) := by
  induction cs generalizing s t with
  | nil =>
    rw [narrowAll, narrowAll]
    exact agree_pure h
  | cons c cs ihcs =>
    rw [narrowAll, narrowAll]
    refine (ih c (by simp) _ _ h).bind fun next next' hnext => ?_
    rw [hnext.isEmpty_eq]
    split
    · exact agree_pure hnext
    · exact ihcs (fun d hd => ih d (by simp [hd])) hnext

theorem agree_narrow
    (hsubset : ∀ id (s : σ) (t : τ), SameSet s t → Agree SameSet (subset id s) (subset' id t))
    (c : Condition) (h : SameSet s t) :
    Agree SameSet (narrow test subset c s) (narrow test subset' c t) := by
  induction c generalizing s t with
  | const b =>
    cases b with
    | true =>
      rw [narrow, narrow]
      exact agree_pure h
    | false =>
      rw [narrow, narrow]
      exact agree_pure h.clear
  | leaf l =>
    rw [narrow, narrow]
    exact agree_narrowLeaf l h
  | subset id =>
    rw [narrow, narrow]
    exact hsubset id s t h
  | not c ih =>
    rw [narrow, narrow]
    refine (agree_copy h).bind fun all all' hall => ?_
    refine (ih hall).bind fun matching matching' hmatching => ?_
    exact agree_diff h hmatching
  | any cs ih =>
    rw [narrow, narrow]
    refine (agree_copy h).bind fun candidates candidates' hcandidates => ?_
    refine (agree_copy h).bind fun _ _ _ => ?_
    exact agree_narrowAny (fun c hc s t hst => ih c hc hst) hcandidates h.clear
  | all cs ih =>
    rw [narrow, narrow]
    exact agree_narrowAll (fun c hc s t hst => ih c hc hst) h

private theorem agree_narrowSubset (store : SubsetStore) (depth : Nat) (id : String)
    (h : SameSet s t) :
    Agree SameSet (narrowSubset test store depth id s) (narrowSubset test store depth id t) := by
  induction depth generalizing id s t with
  | zero =>
    rw [narrowSubset, narrowSubset]
    split
    · exact (agree_noteMissing id).bind fun _ _ _ => agree_pure h.clear
    · exact agree_pure h.clear
  | succ depth ih =>
    rw [narrowSubset, narrowSubset]
    split
    · exact (agree_noteMissing id).bind fun _ _ _ => agree_pure h.clear
    · exact agree_narrow (fun id s t hst => ih id hst) _ h

private theorem agree_narrowAllVersions (σ τ : Type) [VersionSet σ] [VersionSet τ]
    [LawfulVersionSet σ]
    [LawfulVersionSet τ] (test : Leaf → Nat → Except EvalCause Bool) (store : SubsetStore)
    (c : Condition) (versions : Nat) :
    Agree SameSet (narrowAllVersions (σ := σ) test store c versions)
      (narrowAllVersions (σ := τ) test store c versions) := by
  unfold narrowAllVersions
  refine (agree_create versions).bind fun s t hst => ?_
  exact agree_narrow (fun id s t h => agree_narrowSubset store store.size id h) c hst.fill

end Narrowing

def SetFailure {α : Type} (r : Except EvalCause α) : Prop := ∃ e, r = .error (.set e)

private theorem SetFailure.code_eq {α : Type} {r : Except EvalCause α} (h : SetFailure r) :
    r.mapError EvalCause.code = .error "CQ_EVAL_SET_FAILURE" := by
  obtain ⟨e, rfl⟩ := h
  rfl

namespace Evaluator

variable {ctx : EvalContext} {record : Nat}

private theorem agree_versionsIn (σ τ : Type) [VersionSet σ] [VersionSet τ] [LawfulVersionSet σ]
    [LawfulVersionSet τ] (ctx : EvalContext) (record : Nat) :
    Agree Eq (versionsIn σ ctx record) (versionsIn τ ctx record) :=
  (agree_narrowAllVersions σ τ _ _ _ _).bind fun _ _ h => agree_pure h.toList_eq

/-- Two evaluators that do not fail in their sets find the same versions, or fail alike. -/
theorem evaluate_agree (ev ev' : Evaluator)
    (h : ¬ SetFailure (ev.evaluate ctx record).versions)
    (h' : ¬ SetFailure (ev'.evaluate ctx record).versions) :
    (ev.evaluate ctx record).versions = (ev'.evaluate ctx record).versions ∧
      (ev.evaluate ctx record).missing = (ev'.evaluate ctx record).missing := by
  obtain ⟨σ, _, _, arena, hversions, hmissing⟩ := ev.evaluate_eq_run ctx record
  obtain ⟨τ, _, _, arena', hversions', hmissing'⟩ := ev'.evaluate_eq_run ctx record
  rw [hversions] at h
  rw [hversions'] at h'
  rw [hversions, hversions', hmissing, hmissing']
  have hstep := agree_versionsIn σ τ ctx record { arena } { arena := arena' } rfl
  unfold run at h h' ⊢
  generalize (versionsIn σ ctx record).run { arena } = r at hstep h ⊢
  generalize (versionsIn τ ctx record).run { arena := arena' } = r' at hstep h' ⊢
  cases hstep with
  | ok heq hsame =>
    cases heq
    exact ⟨rfl, hsame⟩
  | error cause hsame => exact ⟨rfl, hsame⟩
  | left e s r => exact absurd ⟨e, rfl⟩ h
  | right e t r => exact absurd ⟨e, rfl⟩ h'

end Evaluator

/-- Two scans of the same records that do not fail in their sets come to the same. -/
theorem Scan.scanFrom_agree {ctx : EvalContext} (ev ev' : Evaluator) (done : Array (Option Nat))
    (missing : Array String) (n : Nat)
    (h : ¬ SetFailure ((scanFrom ctx ev done missing n).firsts.mapError EvalError.cause))
    (h' : ¬ SetFailure ((scanFrom ctx ev' done missing n).firsts.mapError EvalError.cause)) :
    scanFrom ctx ev done missing n = scanFrom ctx ev' done missing n := by
  induction n generalizing ev ev' done missing with
  | zero => rfl
  | succ n ih =>
    -- a failure in the sets at this record would have ended the scan
    have hends {ev : Evaluator}
        (h : ¬ SetFailure ((scanFrom ctx ev done missing (n + 1)).firsts.mapError EvalError.cause)) :
        ¬ SetFailure (ev.evaluate ctx done.size).versions := by
      rintro ⟨e, he⟩
      refine h ⟨e, ?_⟩
      simp only [scanFrom, he]
      rfl
    obtain ⟨hversions, hmissing⟩ := Evaluator.evaluate_agree ev ev' (hends h) (hends h')
    simp only [scanFrom, hversions, hmissing] at h h' ⊢
    cases hfound : (ev'.evaluate ctx done.size).versions with
    | error cause => rfl
    | ok versions =>
      simp only [hfound] at h h'
      exact ih _ _ _ _ h h'

/-- The implementation of sets makes no difference. Two evaluations of a record, with any choice of
sets and arenas of any size, give the same versions or the same error, and look for the same subsets
in vain, unless an operation on sets fails in one of them; and so do two scans of the catalog. -/
theorem evaluation_independent_of_sets (ctx : EvalContext) :
    (∀ (ev ev' : Evaluator) (record : Nat),
      (ev.evaluate ctx record).versions.mapError EvalCause.code ≠ .error "CQ_EVAL_SET_FAILURE" →
      (ev'.evaluate ctx record).versions.mapError EvalCause.code ≠ .error "CQ_EVAL_SET_FAILURE" →
        (ev.evaluate ctx record).versions = (ev'.evaluate ctx record).versions ∧
        (ev.evaluate ctx record).missing = (ev'.evaluate ctx record).missing) ∧
    ∀ (selection selection' : SetSelection) (bytes bytes' : Nat),
      (Scan.all ctx selection bytes).firsts.mapError EvalError.code ≠
        .error "CQ_EVAL_SET_FAILURE" →
      (Scan.all ctx selection' bytes').firsts.mapError EvalError.code ≠
        .error "CQ_EVAL_SET_FAILURE" →
        Scan.all ctx selection bytes = Scan.all ctx selection' bytes' := by
  refine ⟨fun ev ev' record h h' => ?_, fun selection selection' bytes bytes' h h' => ?_⟩
  · exact Evaluator.evaluate_agree ev ev' (fun hset => h hset.code_eq)
      (fun hset => h' hset.code_eq)
  · have hcode {scan : Scan}
        (h : scan.firsts.mapError EvalError.code ≠ .error "CQ_EVAL_SET_FAILURE") :
        ¬ SetFailure (scan.firsts.mapError EvalError.cause) := by
      intro hset
      refine h (.trans ?_ hset.code_eq)
      cases scan.firsts <;> rfl
    have h := hcode h
    have h' := hcode h'
    unfold Scan.all at h h' ⊢
    cases hlength : ctx.catalog.length? with
    | none => rfl
    | some length =>
      simp only [hlength] at h h'
      exact Scan.scanFrom_agree _ _ _ _ _ h h'

/-- The second printing is found in one word as it is in several words of an arena. -/
theorem evaluation_independent_of_sets_printings :
    ((Evaluator.new {} 0).evaluate printings 0).versions =
      ((Evaluator.new ⟨false, true⟩ 4096).evaluate printings 0).versions ∧
    Scan.all printings {} 0 = Scan.all printings ⟨false, true⟩ 4096 := by
  have hword : ((Evaluator.new {} 0).evaluate printings 0).versions = .ok [1] := rfl
  have hwords : ((Evaluator.new ⟨false, true⟩ 4096).evaluate printings 0).versions = .ok [1] := rfl
  have hscan : (Scan.all printings {} 0).firsts = .ok #[some 1] := rfl
  have hscan' : (Scan.all printings ⟨false, true⟩ 4096).firsts = .ok #[some 1] := rfl
  obtain ⟨hrecords, hscans⟩ := evaluation_independent_of_sets printings
  refine ⟨(hrecords _ _ 0 ?_ ?_).1, hscans _ _ _ _ ?_ ?_⟩
  · simp [hword, Except.mapError]
  · simp [hwords, Except.mapError]
  · simp [hscan, Except.mapError]
  · simp [hscan', Except.mapError]

/-- An arena that is too small for the sets of a record shows. -/
example : ((Evaluator.new ⟨false, false⟩ 0).evaluate printings 0).versions.mapError EvalCause.code =
    .error "CQ_EVAL_SET_FAILURE" := rfl

end CardSearch
