import CardSearch.Proofs.Engine.Attempts

/-!
# What attempts come to

Polling a run takes its attempt as far as it goes. An attempt that fails is followed by another one
as long as the run may make more; one that succeeds ends the run. What ended in a poll is all that
the poll counts.
-/

namespace CardSearch

open CardStore

abbrev RunOutcome := Except ExecutionError QueryResult

namespace Metrics

def ofRuns (m : Metrics) : Metrics := { m with evaluated := 0, refetches := 0 }

/-- So many attempts failed and were followed by others. -/
def addRetries (m : Metrics) (n : Nat) : Metrics := { m with retried := m.retried + n }

def addRun (m : Metrics) : RunOutcome → Metrics
  | .ok _ => { m with executed := m.executed + 1 }
  | .error _ => { m with failed := m.failed + 1 }

theorem ofRuns_addRun (m : Metrics) (outcome : RunOutcome) :
    (m.addRun outcome).ofRuns = m.ofRuns.addRun outcome := by cases outcome <;> rfl

theorem retried_addRun (m : Metrics) (outcome : RunOutcome) :
    (m.addRun outcome).retried = m.retried := by cases outcome <;> rfl

theorem deduplicated_addRun (m : Metrics) (outcome : RunOutcome) :
    (m.addRun outcome).deduplicated = m.deduplicated := by cases outcome <;> rfl

/-- A run that has ended counts once, in one way or the other. -/
theorem ended_addRun (m : Metrics) (outcome : RunOutcome) :
    (m.addRun outcome).executed + (m.addRun outcome).failed = m.executed + m.failed + 1 := by
  cases outcome with
  | ok result => exact Nat.add_right_comm ..
  | error error => rfl

theorem eq_of_ofRuns {m m' : Metrics} (h : m'.ofRuns = m.ofRuns) : m'.executed = m.executed ∧
    m'.deduplicated = m.deduplicated ∧ m'.retried = m.retried ∧ m'.failed = m.failed := by
  simpa [ofRuns] using h

theorem addRetries_addRetries (m : Metrics) (n k : Nat) :
    (m.addRetries n).addRetries k = m.addRetries (k + n) := by
  rw [addRetries, addRetries, addRetries, Nat.add_comm k, ← Nat.add_assoc]

end Metrics

namespace CardStore

variable (s : CardStore) (source : Source)

theorem ofRuns_poll (id : LoadId) : (s.poll source id).metrics.ofRuns = s.metrics.ofRuns := by
  have huntouched : Untouched fun s => s.metrics.ofRuns :=
    ⟨fun _ _ _ => rfl, fun _ => rfl, fun _ _ => rfl, fun _ _ => rfl, fun _ _ => rfl, fun _ _ => rfl⟩
  exact huntouched.poll (fun _ _ => rfl) s source id

theorem metrics_request (target : LoadTarget) : (s.request target).1.metrics = s.metrics := by
  unfold request
  split <;> rfl

private theorem metrics_requestProperties (ps : List Property) :
    (s.requestProperties ps).1.metrics = s.metrics := by
  induction ps generalizing s with
  | nil => rfl
  | cons p ps ih => exact (ih _).trans (s.metrics_request _)

end CardStore

namespace Waiting

theorem metrics_begin (s : CardStore) (properties : List Property) (order : SortOrder) :
    (Waiting.begin s properties order).1.metrics = s.metrics :=
  (metrics_requestProperties _ _).trans (s.metrics_request _)

theorem ofRuns_poll (source : Source) (s : CardStore) (w : Waiting) :
    (w.poll source s).1.metrics.ofRuns = s.metrics.ofRuns :=
  poll_of_polls (P := fun s' => s'.metrics.ofRuns = s.metrics.ofRuns)
    (fun {s'} h id => (s'.ofRuns_poll source id).trans h) rfl w

end Waiting

namespace Engine

variable {e e' e'' : Engine} {source : Source} {id : RunId} {run : Run} {w : Waiting} {n : Nat}

structure Keeps (e e' : Engine) : Prop where
  runs_eq : e'.runs = e.runs
  inFlight_eq : e'.inFlight = e.inFlight
  settings_eq : e'.settings = e.settings
  ofRuns_eq : e'.store.metrics.ofRuns = e.store.metrics.ofRuns

theorem Keeps.refl (e : Engine) : Keeps e e := ⟨rfl, rfl, rfl, rfl⟩

theorem Keeps.trans (h : Keeps e e') (h' : Keeps e' e'') : Keeps e e'' :=
  ⟨h'.runs_eq.trans h.runs_eq, h'.inFlight_eq.trans h.inFlight_eq,
    h'.settings_eq.trans h.settings_eq, h'.ofRuns_eq.trans h.ofRuns_eq⟩

private theorem keeps_report (e : Engine) (event : LogEvent) (fields : List (String × String)) :
    Keeps e (e.report event fields) := ⟨rfl, rfl, rfl, rfl⟩

private theorem keeps_evaluated (e : Engine) (n : Nat) :
    Keeps e (e.count fun m => { m with evaluated := m.evaluated + n }) := ⟨rfl, rfl, rfl, rfl⟩

private theorem keeps_evaluate (e : Engine) (run : Run) (sorter : Sorter) :
    Keeps e (e.evaluate run sorter).1 := by
  have hreports (ids : List String) (e : Engine) :
      Keeps e (ids.foldl (fun e id => e.report .subsetMissing [("subset_id", id)]) e) := by
    induction ids generalizing e with
    | nil => exact .refl e
    | cons id ids ih => exact (e.keeps_report ..).trans (ih _)
  unfold evaluate
  dsimp only
  generalize Scan.all ⟨e.store.catalog, e.subsets, run.query.condition⟩ e.settings.selection
    e.settings.arenaBytes = scan
  have hmissing := hreports scan.missing.toList e
  rw [Array.foldl_toList] at hmissing
  split
  · exact hmissing
  · refine hmissing.trans ?_
    dsimp only
    split
    · exact keeps_evaluated ..
    · exact (keeps_evaluated ..).trans (keeps_report ..)

theorem keeps_beginAttempt (e : Engine) (run : Run) : Keeps e (e.beginAttempt run).1 :=
  ⟨rfl, rfl, rfl, congrArg Metrics.ofRuns (Waiting.metrics_begin ..)⟩

/-- Takes the attempt that a run is at as far as it goes: it still waits, or has ended. -/
def attempt (source : Source) (e : Engine) (run : Run) (waiting : Waiting) :
    Engine × (Waiting ⊕ RunOutcome) :=
  match waiting.poll source e.store with
  | (store, .pending waiting) => ({ e with store }, .inl waiting)
  | (store, .failed error) => ({ e with store }, .inr (.error (.load error)))
  | (store, .ready sorter) =>
    let (e, outcome) := ({ e with store } : Engine).evaluate run sorter
    (e, .inr outcome)

theorem carryOn_eq (source : Source) (id : RunId) (n : Nat) (e : Engine) (run : Run) (w : Waiting) :
    carryOn source id n e run w = match e.attempt source run w with
      | (e, .inl waiting) => e.setRun id { run with stage := .loading waiting }
      | (e, .inr (.ok result)) => e.endRun id run (.ok result)
      | (e, .inr (.error error)) => afterFailure source id n e run error := by
  unfold carryOn attempt
  generalize w.poll source e.store = r
  obtain ⟨store, waiting | sorter | error⟩ := r
  · rfl
  · dsimp only
    generalize ({ e with store } : Engine).evaluate run sorter = r
    obtain ⟨e', error | result⟩ := r
    · cases n <;> rfl
    · rfl
  · cases n <;> rfl

theorem keeps_attempt (source : Source) (e : Engine) (run : Run) (w : Waiting) :
    Keeps e (e.attempt source run w).1 := by
  have hpoll := w.ofRuns_poll source e.store
  unfold attempt
  generalize w.poll source e.store = r at *
  obtain ⟨store, waiting | sorter | error⟩ := r
  · exact ⟨rfl, rfl, rfl, hpoll⟩
  · have hstore : Keeps e { e with store } := ⟨rfl, rfl, rfl, hpoll⟩
    exact hstore.trans (keeps_evaluate _ run sorter)
  · exact ⟨rfl, rfl, rfl, hpoll⟩

/-- What the attempts come to that end while a run is carried on, with so many more to make. -/
def attemptOutcomes (source : Source) : Nat → Engine → Run → Waiting → List RunOutcome
  | attemptsLeft, e, run, waiting =>
    match e.attempt source run waiting with
    | (_, .inl _) => []
    | (_, .inr (.ok result)) => [.ok result]
    | (e, .inr (.error error)) =>
      .error error :: match attemptsLeft with
      | 0 => []
      | attemptsLeft + 1 =>
        let e := e.noteRetry run error
        let run := { run with attempt := run.attempt + 1 }
        let (e, waiting) := e.beginAttempt run
        attemptOutcomes source attemptsLeft e run waiting

/-- What carrying a run on comes to, where so many more attempts may be made: some attempts failed
and were followed by others, and the last one still waits or has ended the run. -/
inductive Flies (id : RunId) (n : Nat) (e : Engine) (run : Run) :
    List RunOutcome → Engine → Prop
  | waits {e' : Engine} (errors : List ExecutionError) (waiting : Waiting) (hn : errors.length ≤ n)
    (hruns : e'.runs = e.runs.setIfInBounds id
      { run with attempt := run.attempt + errors.length, stage := .loading waiting })
    (hflight : e'.inFlight = e.inFlight) (hsettings : e'.settings = e.settings)
    (hmetrics : e'.store.metrics.ofRuns = e.store.metrics.ofRuns.addRetries errors.length) :
    Flies id n e run (errors.map .error) e'
  | ends {e' : Engine} (errors : List ExecutionError) (outcome : RunOutcome)
    (hn : errors.length ≤ n) (hall : ∀ error, outcome = .error error → errors.length = n)
    (hruns : e'.runs = e.runs.setIfInBounds id
      { run with attempt := run.attempt + errors.length, stage := .finished outcome })
    (hflight : e'.inFlight = e.inFlight.filter (·.1 != run.key))
    (hsettings : e'.settings = e.settings)
    (hmetrics : e'.store.metrics.ofRuns =
      (e.store.metrics.ofRuns.addRetries errors.length).addRun outcome) :
    Flies id n e run (errors.map .error ++ [outcome]) e'

/-- A run that ends leaves the flight, is counted, and has its outcome. -/
theorem flies_endRun (h : Keeps e e') {outcome : RunOutcome}
    (hall : ∀ error, outcome = .error error → n = 0) :
    Flies id n e run [outcome] (e'.endRun id run outcome) := by
  have hmetrics : (e'.endRun id run outcome).store.metrics = e'.store.metrics.addRun outcome := by
    cases outcome <;> rfl
  have hruns : (e'.endRun id run outcome).runs =
      e'.runs.setIfInBounds id { run with stage := .finished outcome } := by
    cases outcome <;> rfl
  have hflight : (e'.endRun id run outcome).inFlight = e'.inFlight.filter (·.1 != run.key) := by
    cases outcome <;> rfl
  have hsettings : (e'.endRun id run outcome).settings = e'.settings := by cases outcome <;> rfl
  refine .ends [] outcome (Nat.zero_le n) (fun error herror => (hall error herror).symm) ?_ ?_ ?_ ?_
  · rw [hruns, h.runs_eq]
    rfl
  · rw [hflight, h.inFlight_eq]
  · rw [hsettings, h.settings_eq]
  · rw [hmetrics, Metrics.ofRuns_addRun, h.ofRuns_eq]
    rfl

/-- A failed attempt stands before those that follow it. -/
theorem Flies.retry {outcomes : List RunOutcome} {error : ExecutionError}
    (h : Flies id n e' { run with attempt := run.attempt + 1 } outcomes e'')
    (hruns : e'.runs = e.runs) (hflight : e'.inFlight = e.inFlight)
    (hsettings : e'.settings = e.settings)
    (hmetrics : e'.store.metrics.ofRuns = e.store.metrics.ofRuns.addRetries 1) :
    Flies id (n + 1) e run (.error error :: outcomes) e'' := by
  cases h with
  | waits errors waiting hn hruns' hflight' hsettings' hmetrics' =>
    refine .waits (error :: errors) waiting (Nat.succ_le_succ hn) ?_ (hflight'.trans hflight)
      (hsettings'.trans hsettings) ?_
    · rw [hruns', hruns, Nat.add_right_comm, Nat.add_assoc]
      rfl
    · rw [hmetrics', hmetrics, Metrics.addRetries_addRetries]
      rfl
  | ends errors outcome hn hall hruns' hflight' hsettings' hmetrics' =>
    refine .ends (error :: errors) outcome (Nat.succ_le_succ hn)
      (fun e he => congrArg Nat.succ (hall e he)) ?_ (hflight'.trans (by rw [hflight]))
      (hsettings'.trans hsettings) ?_
    · rw [hruns', hruns, Nat.add_right_comm, Nat.add_assoc]
      rfl
    · rw [hmetrics', hmetrics, Metrics.addRetries_addRetries]
      rfl

private theorem flies_setRun (h : Keeps e e') (waiting : Waiting) :
    Flies id n e run [] (e'.setRun id { run with stage := .loading waiting }) := by
  refine .waits [] waiting (Nat.zero_le n) ?_ h.inFlight_eq h.settings_eq h.ofRuns_eq
  rw [← h.runs_eq]
  rfl

private theorem flies_carryOn (source : Source) (id : RunId) (n : Nat) (e : Engine) (run : Run)
    (w : Waiting) :
    Flies id n e run (attemptOutcomes source n e run w) (carryOn source id n e run w) := by
  induction n generalizing e run w with
  | zero =>
    have hkeeps := keeps_attempt source e run w
    rw [carryOn_eq, attemptOutcomes]
    generalize e.attempt source run w = r at *
    obtain ⟨e', waiting | error | result⟩ := r
    · exact flies_setRun hkeeps waiting
    · exact flies_endRun hkeeps fun _ _ => rfl
    · exact flies_endRun hkeeps fun _ h => by cases h
  | succ n ih =>
    have hkeeps := keeps_attempt source e run w
    rw [carryOn_eq, attemptOutcomes]
    generalize e.attempt source run w = r at *
    obtain ⟨e', waiting | error | result⟩ := r
    · exact flies_setRun hkeeps waiting
    · -- the attempt failed, and another one is carried on
      have hbegin := keeps_beginAttempt (e'.noteRetry run error)
        { run with attempt := run.attempt + 1 }
      exact (ih _ _ _).retry (hbegin.runs_eq.trans hkeeps.runs_eq)
        (hbegin.inFlight_eq.trans hkeeps.inFlight_eq)
        (hbegin.settings_eq.trans hkeeps.settings_eq)
        (hbegin.ofRuns_eq.trans (congrArg (·.addRetries 1) hkeeps.ofRuns_eq))
    · exact flies_endRun hkeeps fun _ h => by cases h

/-- What a run that has not ended is carried on from: the attempt that it is at, or its first. -/
def enter (e : Engine) (run : Run) : Option (Engine × Run × Waiting) :=
  match run.stage with
  | .finished _ => none
  | .loading waiting => some (e, run, waiting)
  | .created =>
    let e := e.write run.scope.start
    let run := { run with started := e.store.clock }
    let (e, waiting) := e.beginAttempt run
    some (e, run, waiting)

/-- What the attempts of a run come to that end when it is polled. -/
def outcomes (source : Source) (e : Engine) (id : RunId) : List RunOutcome :=
  match e.runs[id]?.bind e.enter with
  | none => []
  | some (e, run, waiting) =>
    attemptOutcomes source (e.settings.attempts - run.attempt) e run waiting

theorem poll_eq (source : Source) (e : Engine) (id : RunId) :
    e.poll source id = match e.runs[id]?.bind e.enter with
      | none => e
      | some (e, run, waiting) =>
        carryOn source id (e.settings.attempts - run.attempt) e run waiting := by
  unfold poll enter
  cases hrun : e.runs[id]? with
  | none => rfl
  | some run =>
    obtain ⟨query, key, attempt, started, _ | waiting | outcome⟩ := run <;> rfl

private theorem Flies.of_keeps {outcomes : List RunOutcome} (h : Flies id n e' run outcomes e'')
    (hkeeps : Keeps e e') : Flies id n e run outcomes e'' := by
  obtain ⟨hruns, hflight, hsettings, hmetrics⟩ := hkeeps
  cases h with
  | waits errors waiting hn hruns' hflight' hsettings' hmetrics' =>
    exact .waits errors waiting hn (hruns ▸ hruns') (hflight'.trans hflight)
      (hsettings'.trans hsettings) (hmetrics ▸ hmetrics')
  | ends errors outcome hn hall hruns' hflight' hsettings' hmetrics' =>
    exact .ends errors outcome hn hall (hruns ▸ hruns') (hflight ▸ hflight')
      (hsettings'.trans hsettings) (hmetrics ▸ hmetrics')

private theorem enter_of_pending (e : Engine) (hpending : run.result? = none) :
    ∃ e' started waiting, e.enter run = some (e', { run with started }, waiting) ∧ Keeps e e' := by
  unfold enter
  split
  · next outcome hstage => simp [Run.result?, hstage] at hpending
  · next waiting hstage => exact ⟨e, run.started, waiting, rfl, .refl e⟩
  · have hwrite : Keeps e (e.write run.scope.start) := ⟨rfl, rfl, rfl, rfl⟩
    have hbegin := hwrite.trans (keeps_beginAttempt _
      { run with started := (e.write run.scope.start).store.clock })
    exact ⟨_, _, _, rfl, hbegin⟩

theorem enter_of_ended (e : Engine) (hended : run.result? ≠ none) : e.enter run = none := by
  unfold enter
  split
  · rfl
  · next hstage => simp [Run.result?, hstage] at hended
  · next hstage => simp [Run.result?, hstage] at hended

/-- A run that has not ended is carried on from the attempt that it is at, or from its first. -/
theorem flies_poll (source : Source) (hrun : e.runs[id]? = some run) (hpending : run.result? = none) :
    ∃ started, Flies id (e.settings.attempts - run.attempt) e { run with started }
      (e.outcomes source id) (e.poll source id) := by
  obtain ⟨e', started, waiting, henter, hkeeps⟩ := e.enter_of_pending hpending
  rw [poll_eq, outcomes, hrun, Option.bind_some, henter]
  dsimp only
  rw [hkeeps.settings_eq]
  exact ⟨started, (flies_carryOn ..).of_keeps hkeeps⟩

/-- Nothing ends in polling a run that has ended. -/
theorem outcomes_eq_nil (source : Source)
    (h : ∀ run, e.runs[id]? = some run → run.result? ≠ none) : e.outcomes source id = [] := by
  unfold outcomes
  cases hrun : e.runs[id]? with
  | none => rfl
  | some run => rw [Option.bind_some, e.enter_of_ended (h run hrun)]

end Engine

end CardSearch
