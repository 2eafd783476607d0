import CardSearch.Engine.Basic
import CardSearch.Proofs.Store.Awaiting

/-!
# Attempts of a run

Carrying a run on takes its attempt as far as it goes, or through several attempts. What it leaves
waits for loads that are held since the last attempt began; where it ends well, all of them have
ended well, and the result is that of the store as it is then.
-/

namespace CardSearch

open CardStore

/-- The result is that of evaluating the query of a run on the store as it is, in the order of a
sorter. -/
def Engine.Answers (e : Engine) (run : Run) (sorter : Sorter) (result : QueryResult) : Prop :=
  ∃ firsts, (Scan.all ⟨e.store.catalog, e.subsets, run.query.condition⟩ e.settings.selection
    e.settings.arenaBytes).firsts = .ok firsts ∧
    result = Engine.resultOf e.store.catalog run.key sorter firsts

namespace Engine

variable {e e' : Engine} {source : Source} {id : RunId} {fetched : Fetched} {g : Nat} {run : Run}
  {w : Waiting}

/-- What a query needs depends on nothing but the settings. -/
theorem needed_congr (h : e'.settings = e.settings) (q : Query) : e'.needed q = e.needed q := by
  rw [needed, needed, h]

structure Reports (e e' : Engine) : Prop where
  contents_eq : e'.store.contents = e.store.contents
  subsets_eq : e'.subsets = e.subsets
  settings_eq : e'.settings = e.settings
  runs_eq : e'.runs = e.runs

theorem Reports.refl (e : Engine) : Reports e e := ⟨rfl, rfl, rfl, rfl⟩

theorem Reports.trans {e'' : Engine} (h : Reports e e') (h' : Reports e' e'') : Reports e e'' :=
  ⟨h'.contents_eq.trans h.contents_eq, h'.subsets_eq.trans h.subsets_eq,
    h'.settings_eq.trans h.settings_eq, h'.runs_eq.trans h.runs_eq⟩

private theorem reports_report (e : Engine) (event : LogEvent) (fields : List (String × String)) :
    Reports e (e.report event fields) := ⟨rfl, rfl, rfl, rfl⟩

private theorem reports_count (e : Engine) (f : Metrics → Metrics) : Reports e (e.count f) :=
  ⟨rfl, rfl, rfl, rfl⟩

private theorem reports_foldl {α : Type} (e : Engine) (f : Engine → α → Engine)
    (hf : ∀ e a, Reports e (f e a)) (as : List α) : Reports e (as.foldl f e) := by
  induction as generalizing e with
  | nil => exact .refl e
  | cons a as ih => exact (hf e a).trans (ih (f e a))

/-- Evaluating changes nothing but reports, and gives the result of the store as it is. -/
theorem evaluate_spec (e : Engine) (run : Run) (sorter : Sorter) :
    Reports e (e.evaluate run sorter).1 ∧ ∀ result, (e.evaluate run sorter).2 = .ok result →
      e.Answers run sorter result := by
  unfold evaluate
  dsimp only
  generalize hscan : Scan.all ⟨e.store.catalog, e.subsets, run.query.condition⟩
    e.settings.selection e.settings.arenaBytes = scan
  have hmissing := reports_foldl e (fun e id => e.report .subsetMissing [("subset_id", id)])
    (fun e id => e.reports_report _ _) scan.missing.toList
  rw [Array.foldl_toList] at hmissing
  cases hfirsts : scan.firsts with
  | error error => exact ⟨hmissing, fun _ h => by cases h⟩
  | ok firsts =>
    refine ⟨hmissing.trans ?_, fun result h => ?_⟩
    · dsimp only
      split
      · exact reports_count ..
      · exact (reports_count ..).trans (reports_report ..)
    · cases h
      exact ⟨firsts, by rw [hscan, hfirsts], rfl⟩

/-- What holds of a run that has not failed, where its last attempt began in a generation of the
store: it holds the loads that it waits for, or had them all end well when it answered. -/
def Attempted (e : Engine) (run : Run) (g : Nat) : Prop :=
  match run.stage with
  | .loading w => w.Sound e.store (e.needed run.query) run.key.order g
  | .finished (.ok result) => ∃ (w : Waiting) (x : Sorter),
      w.Sound e.store (e.needed run.query) run.key.order g ∧ w.Ready e.store x ∧
        e.Answers run x result
  | _ => True

/-- What carrying a run on comes to. An attempt that has not failed went on without a clearing of
the store, or is a later one and began after all clearings. -/
structure Carries (source : Source) (id : RunId) (e : Engine) (run : Run) (g : Nat)
    (e' : Engine) (run' : Run) : Prop where
  reaches : Reaches source e.store e'.store
  settings_eq : e'.settings = e.settings
  runs_eq : e'.runs = e.runs.setIfInBounds id run'
  query_eq : run'.query = run.query
  key_eq : run'.key = run.key
  attempted : (∃ error, run'.stage = .finished (.error error)) ∨
    ∃ g', e'.Attempted run' g' ∧ run'.stage ≠ .created ∧
      (run'.attempt = run.attempt ∧ g' = g ∧ e'.store.generation = e.store.generation ∨
        run.attempt < run'.attempt ∧ g' = e'.store.generation)

theorem endRun_spec (e : Engine) (id : RunId) (run : Run)
    (result : Except ExecutionError QueryResult) :
    (e.endRun id run result).store.contents = e.store.contents ∧
      (e.endRun id run result).subsets = e.subsets ∧
      (e.endRun id run result).settings = e.settings ∧
      (e.endRun id run result).runs =
        e.runs.setIfInBounds id { run with stage := .finished result } := by
  cases result <;> exact ⟨rfl, rfl, rfl, rfl⟩

theorem carries_endRun_error {e₁ e₂ : Engine} (hreach : Reaches source e.store e₁.store)
    (hsettings : e₁.settings = e.settings) (hruns : e₁.runs = e.runs)
    (hreports : Reports e₁ e₂) (error : ExecutionError) :
    Carries source id e run g (e₂.endRun id run (.error error))
      { run with stage := .finished (.error error) } := by
  obtain ⟨hcontents, -, hsettings', hruns'⟩ := e₂.endRun_spec id run (.error error)
  refine ⟨.reports (hcontents.trans hreports.contents_eq) hreach,
    hsettings'.trans (hreports.settings_eq.trans hsettings), ?_, rfl, rfl, .inl ⟨error, rfl⟩⟩
  rw [hruns', hreports.runs_eq, hruns]

theorem carries_endRun_ok (e₁ : Engine) {e₂ : Engine} {x : Sorter} {result : QueryResult}
    (hvalid : e₁.store.contents.Valid fetched) (hreach : Reaches source e.store e₁.store)
    (hgen : e₁.store.generation = e.store.generation) (hsettings : e₁.settings = e.settings)
    (hruns : e₁.runs = e.runs)
    (hsound : w.Sound e₁.store (e₁.needed run.query) run.key.order g)
    (hready : w.Ready e₁.store x) (hreports : Reports e₁ e₂) (hanswers : e₁.Answers run x result) :
    Carries source id e run g (e₂.endRun id run (.ok result))
      { run with stage := .finished (.ok result) } := by
  obtain ⟨hcontents, hsubsets', hsettings', hruns'⟩ := e₂.endRun_spec id run (.ok result)
  have hcontents := hcontents.trans hreports.contents_eq
  have hsubsets' := hsubsets'.trans hreports.subsets_eq
  have hsettings' := hsettings'.trans hreports.settings_eq
  have hlast : Reaches source e₁.store (e₂.endRun id run (.ok result)).store :=
    .reports hcontents .refl
  have hneeded := needed_congr hsettings' run.query
  have hanswers' : (e₂.endRun id run (.ok result)).Answers run x result := by
    obtain ⟨firsts, hfirsts, hresult⟩ := hanswers
    have hcatalog : (e₂.endRun id run (.ok result)).store.catalog = e₁.store.catalog :=
      congrArg Contents.catalog hcontents
    refine ⟨firsts, ?_, ?_⟩
    · rw [hcatalog, hsubsets', hsettings', hfirsts]
    · rw [hcatalog, hresult]
  have hattempted : (e₂.endRun id run (.ok result)).Attempted
      { run with stage := .finished (.ok result) } g := by
    refine ⟨w, x, ?_, hready.reaches hlast, hanswers'⟩
    change w.Sound _ ((e₂.endRun id run (.ok result)).needed run.query) _ g
    rw [hneeded]
    exact hsound.reaches hvalid hlast
  refine ⟨hreach.trans hlast, hsettings'.trans hsettings, ?_, rfl, rfl,
    .inr ⟨g, hattempted, nofun, .inl ⟨rfl, rfl, ?_⟩⟩⟩
  · rw [hruns', hreports.runs_eq, hruns]
  · exact (congrArg Contents.generation hcontents).trans hgen

theorem Carries.of_retry {e₁ e' : Engine} {run₁ run' : Run} {g₁ : Nat}
    (h : Carries source id e₁ run₁ g₁ e' run') (hreach : Reaches source e.store e₁.store)
    (hsettings : e₁.settings = e.settings) (hruns : e₁.runs = e.runs)
    (hquery : run₁.query = run.query) (hkey : run₁.key = run.key)
    (hattempt : run.attempt < run₁.attempt) (hg₁ : g₁ = e₁.store.generation) :
    Carries source id e run g e' run' where
  reaches := hreach.trans h.reaches
  settings_eq := h.settings_eq.trans hsettings
  runs_eq := hruns ▸ h.runs_eq
  query_eq := h.query_eq.trans hquery
  key_eq := h.key_eq.trans hkey
  attempted := by
    refine h.attempted.imp_right fun ⟨g', hattempted, hstage, hg'⟩ => ⟨g', hattempted, hstage, .inr ?_⟩
    rcases hg' with ⟨hsame, rfl, hgen⟩ | ⟨hlater, hg'⟩
    · exact ⟨hsame ▸ hattempt, hg₁.trans hgen.symm⟩
    · exact ⟨Nat.lt_trans hattempt hlater, hg'⟩

/-- A run that still waits has a new stage. -/
theorem carries_pending {s' : CardStore} {w' : Waiting} (hreach : Reaches source e.store s')
    (hgen : s'.generation = e.store.generation)
    (h : w'.Sound s' (e.needed run.query) run.key.order g) :
    Carries source id e run g
      (({ e with store := s' } : Engine).setRun id { run with stage := .loading w' })
      { run with stage := .loading w' } :=
  ⟨hreach, rfl, rfl, rfl, rfl, .inr ⟨g, h, nofun, .inl ⟨rfl, rfl, hgen⟩⟩⟩

theorem beginAttempt_spec (source : Source) (hvalid : e.store.contents.Valid fetched) (run : Run) :
    Reaches source e.store (e.beginAttempt run).1.store ∧
      (e.beginAttempt run).1.settings = e.settings ∧ (e.beginAttempt run).1.runs = e.runs ∧
      (e.beginAttempt run).2.Sound (e.beginAttempt run).1.store
        ((e.beginAttempt run).1.needed run.query) run.key.order
        (e.beginAttempt run).1.store.generation := by
  obtain ⟨hreach, hsound⟩ :=
    Waiting.sound_begin source hvalid (e.needed run.query) run.key.order
  exact ⟨hreach, rfl, rfl, hsound⟩

def afterFailure (source : Source) (id : RunId) (n : Nat) (e : Engine) (run : Run)
    (error : ExecutionError) : Engine :=
  match n with
  | 0 => e.endRun id run (.error error)
  | n + 1 =>
    let e := e.noteRetry run error
    let run := { run with attempt := run.attempt + 1 }
    let (e, waiting) := e.beginAttempt run
    carryOn source id n e run waiting

/-- Carrying a run on keeps the loads that it holds. -/
theorem carries_carryOn (source : Source) (id : RunId) (n : Nat) {e : Engine} {fetched : Fetched}
    {run : Run} {w : Waiting} {g : Nat} (hvalid : e.store.contents.Valid fetched)
    (hsound : w.Sound e.store (e.needed run.query) run.key.order g) :
    ∃ run', Carries source id e run g (carryOn source id n e run w) run' := by
  have hgoes := Waiting.goes_poll source hvalid hsound
  -- a failed attempt either ends the run or is followed by another one
  have hfail (e₁ e₂ : Engine) (error : ExecutionError) (hreach : Reaches source e.store e₁.store)
      (hsettings : e₁.settings = e.settings) (hruns : e₁.runs = e.runs)
      (hreports : Reports e₁ e₂) :
      ∃ run', Carries source id e run g (afterFailure source id n e₂ run error) run' := by
    cases n with
    | zero => exact ⟨_, carries_endRun_error hreach hsettings hruns hreports error⟩
    | succ n =>
      have hnote : Reports e₁ (e₂.noteRetry run error) :=
        hreports.trans ⟨rfl, rfl, rfl, rfl⟩
      have hreach' : Reaches source e.store (e₂.noteRetry run error).store :=
        .reports hnote.contents_eq hreach
      obtain ⟨hbegin, hsettings', hruns', hsound'⟩ := beginAttempt_spec source
        (hreach'.valid hvalid) { run with attempt := run.attempt + 1 }
      have hreach'' := hreach'.trans hbegin
      obtain ⟨run', hnext⟩ := carries_carryOn source id n (hreach''.valid hvalid) hsound'
      exact ⟨run', hnext.of_retry hreach'' (hsettings'.trans (hnote.settings_eq.trans hsettings))
        (hruns'.trans (hnote.runs_eq.trans hruns)) rfl rfl (Nat.lt_succ_self _) rfl⟩
  unfold carryOn
  generalize w.poll source e.store = r at *
  cases hgoes with
  | pending hreach hgen h => exact ⟨_, carries_pending hreach hgen h⟩
  | @ready s' w' x hreach hgen h hready =>
    obtain ⟨hreports, hanswers⟩ := ({ e with store := s' } : Engine).evaluate_spec run x
    dsimp only
    generalize ({ e with store := s' } : Engine).evaluate run x = r at *
    obtain ⟨e₂, error | result⟩ := r
    · exact hfail { e with store := s' } e₂ error hreach rfl rfl hreports
    · exact ⟨_, carries_endRun_ok { e with store := s' } (hreach.valid hvalid) hreach hgen rfl rfl h
        hready hreports (hanswers result rfl)⟩
  | @failed s' error hreach => exact hfail { e with store := s' } _ _ hreach rfl rfl (.refl _)

end Engine

end CardSearch
