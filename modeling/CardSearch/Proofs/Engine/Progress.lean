import CardSearch.Proofs.Engine.Execution
import CardSearch.Proofs.Store.Progress

/-!
# Executions come to an end

Over a source that has the files of a request, an attempt is over after two polls, and the next one
begins in the poll that ends the one before. So a run ends in one poll more than it may make attempts,
whatever the store under it holds: the rounds of an execution are enough.
-/

namespace CardSearch

open CardStore

namespace Engine

variable {e e' : Engine} {source : Source} {id : RunId} {run : Run} {w : Waiting} {n k : Nat}
  {needed : List Property} {order : SortOrder} {files : FileSet}

/-- Taking an attempt as far as it goes brings no load underway. -/
theorem asks_attempt (h : e.store.Asks needed order) (source : Source) (run : Run) (w : Waiting) :
    (e.attempt source run w).1.store.Asks needed order := by
  have hpoll := h.waiting source w
  unfold attempt
  generalize w.poll source e.store = r at *
  obtain ⟨store, waiting | sorter | error⟩ := r
  · exact hpoll
  · exact hpoll.of_contents_eq (({ e with store } : Engine).evaluate_spec run sorter).1.contents_eq
  · exact hpoll

/-- What an attempt still waits for after a poll has to be polled once less. -/
theorem nears_attempt {w' : Waiting} (h : e.store.Asks needed order)
    (hfound : files.FoundIn source needed order) (hnears : w.Nears e.store (n + 1))
    (heq : e.attempt source run w = (e', .inl w')) : 1 ≤ n ∧ w'.Nears e'.store n := by
  unfold attempt at heq
  generalize hr : w.poll source e.store = r at heq
  obtain ⟨store, waiting | sorter | error⟩ := r
  · cases heq
    exact hnears.poll h hfound hr
  · cases heq
  · cases heq

/-- A run has ended, or ends when it was polled so many times over the files: once for each attempt
that it may still make, and as often as what it waits for has to be. -/
inductive Due (files : FileSet) (source : Source) (id : RunId) (k : Nat) (e : Engine) : Prop
  | ended (hresult : e.result? id ≠ none)
  | waits {run run' : Run} {e' : Engine} {w : Waiting} {n : Nat} (hrun : e.runs[id]? = some run)
    (henter : e.enter run = some (e', run', w))
    (hfound : files.FoundIn source (e'.needed run'.query) run'.key.order)
    (hasks : e'.store.Asks (e'.needed run'.query) run'.key.order) (hnears : w.Nears e'.store n)
    (hn : 1 ≤ n) (hid : id < e'.runs.size) (hk : e'.settings.attempts - run'.attempt + n ≤ k)

theorem Due.mono {k' : Nat} (h : Due files source id k e) (hle : k ≤ k') :
    Due files source id k' e := by
  cases h with
  | ended hresult => exact .ended hresult
  | waits hrun henter hfound hasks hnears hn hid hk =>
    exact .waits hrun henter hfound hasks hnears hn hid (Nat.le_trans hk hle)

private theorem due_endRun (hid : id < e.runs.size) (run : Run) (outcome : RunOutcome) :
    Due files source id k (e.endRun id run outcome) := by
  refine .ended ?_
  rw [e.result?_endRun hid]
  exact Option.some_ne_none outcome

private theorem due_carryOn {m : Nat} {e : Engine} {run : Run} {w : Waiting} {n : Nat}
    (hfound : files.FoundIn source (e.needed run.query) run.key.order)
    (hasks : e.store.Asks (e.needed run.query) run.key.order) (hnears : w.Nears e.store (n + 1))
    (hid : id < e.runs.size) (hm : e.settings.attempts - run.attempt = m) :
    Due files source id (m + n) (carryOn source id m e run w) := by
  have hkeeps := keeps_attempt source e run w
  have hasks' := asks_attempt hasks source run w
  rw [carryOn_eq]
  generalize hattempt : e.attempt source run w = r at *
  obtain ⟨e', waiting | error | result⟩ := r
  all_goals
    have hid' : id < e'.runs.size := hkeeps.runs_eq ▸ hid
    have hneeded := needed_congr hkeeps.settings_eq run.query
  · obtain ⟨hn, hnears'⟩ := nears_attempt hasks hfound hnears hattempt
    have hsize : (e'.setRun id { run with stage := .loading waiting }).runs.size = e'.runs.size :=
      Array.size_setIfInBounds
    have hsettings : e'.settings = e.settings := hkeeps.settings_eq
    have hle : e'.settings.attempts - run.attempt + n ≤ m + n :=
      Nat.le_of_eq (by rw [hsettings, hm])
    exact .waits (Array.getElem?_setIfInBounds_self_of_lt hid') rfl (hneeded ▸ hfound)
      (hneeded ▸ hasks') hnears' hn (hsize ▸ hid') hle
  · cases m with
    | zero =>
      have hend : Due files source id (0 + n) (e'.endRun id run (.error error)) :=
        due_endRun hid' run (.error error)
      exact hend
    | succ m =>
      let next : Run := { run with attempt := run.attempt + 1 }
      let e₁ : Engine := e'.noteRetry run error
      have hasks₁ : e₁.store.Asks (e₁.needed next.query) next.key.order :=
        hneeded ▸ hasks'.of_contents_eq rfl
      have hbegin : (e₁.beginAttempt next).1.store.Asks (e₁.needed next.query) next.key.order :=
        hasks₁.begin (PropertySet.pairwise_toList _)
      have hfound₁ : files.FoundIn source (e₁.needed next.query) next.key.order := hneeded ▸ hfound
      have hnears₁ : (e₁.beginAttempt next).2.Nears (e₁.beginAttempt next).1.store (1 + 1) :=
        Waiting.nears_begin _ _ hbegin.toCoherent
      have hleft : (e₁.beginAttempt next).1.settings.attempts - next.attempt = m := by
        change e'.settings.attempts - (run.attempt + 1) = m
        rw [hkeeps.settings_eq]
        omega
      have hnext : Due files source id (m + 1) (afterFailure source id (m + 1) e' run error) :=
        due_carryOn hfound₁ hbegin hnears₁ hid' hleft
      exact hnext.mono (Nat.le_add_right _ _)
  · exact due_endRun hid' run (.ok result)
termination_by m

private theorem Due.poll (h : Due files source id (k + 1) e) :
    Due files source id k (e.poll source id) := by
  cases h with
  | ended hresult =>
    obtain ⟨outcome, hout⟩ := Option.ne_none_iff_exists'.1 hresult
    rw [poll_of_result hout]
    exact .ended hresult
  | @waits run run' e' w n hrun henter hfound hasks hnears hn hid hk =>
    rw [poll_eq, hrun, Option.bind_some, henter]
    obtain ⟨n, rfl⟩ := Nat.exists_eq_add_one.2 hn
    exact (due_carryOn hfound hasks hnears hid rfl).mono (Nat.le_of_succ_le_succ hk)

private theorem Due.ended_of_zero (h : Due files source id 0 e) : e.result? id ≠ none := by
  cases h with
  | ended hresult => exact hresult
  | waits _ _ _ _ _ hn _ hk => omega

theorem Due.result?_foldl (h : Due files source id k e) :
    ((List.replicate k source).foldl (fun e source => e.poll source id) e).result? id ≠ none := by
  induction k generalizing e with
  | zero => exact h.ended_of_zero
  | succ k ih => exact ih h.poll

theorem foldl_poll_of_result {outcome : RunOutcome} (h : e.result? id = some outcome)
    (rounds : List Source) : rounds.foldl (fun e source => e.poll source id) e = e := by
  induction rounds with
  | nil => rfl
  | cons source rounds ih => rw [List.foldl_cons, poll_of_result h, ih]

theorem pollUntilDone_eq (source : Source) (n : Nat) (e : Engine) (id : RunId) :
    pollUntilDone source n e [id] =
      (List.replicate n source).foldl (fun e source => e.poll source id) e := by
  induction n generalizing e with
  | zero => rfl
  | succ n ih =>
    rw [pollUntilDone]
    cases hresult : e.result? id with
    | none => simpa [hresult, pollRound, List.replicate_succ] using ih (e.poll source id)
    | some outcome =>
      rw [foldl_poll_of_result hresult]
      simp [hresult]

theorem execute_eq (source : Source) (e : Engine) (request : RunRequest) :
    e.execute source request = e.executeOver (List.replicate (e.rounds + 1) source) request := by
  obtain ⟨-, hsettings, -⟩ := e.request_spec request.query request.order request.ascending
  have hrounds : (e.request request.query request.order request.ascending).1.rounds = e.rounds := by
    rw [rounds, rounds, hsettings]
  rw [execute, executeOver]
  dsimp only
  rw [pollUntilDone_eq, hrounds]

def asked (q : Query) (order : SortOrder) (ascending : Bool) : Run where
  query := q
  key := ⟨q.digest, order, ascending⟩

def launch (e : Engine) (run : Run) : Engine :=
  { e with runs := e.runs.push run, inFlight := (run.key, e.runs.size) :: e.inFlight }

theorem getElem?_launch (e : Engine) (run : Run) :
    (e.launch run).runs[e.runs.size]? = some run := Array.getElem?_push_size

/-- A request that is not in flight starts a run, which is polled in the rounds of its execution. -/
theorem executeOver_of_lookup {q : Query} {ascending : Bool}
    (hflight : e.inFlight.lookup ⟨q.digest, order, ascending⟩ = none) (rounds : List Source) :
    e.executeOver rounds ⟨q, order, ascending⟩ =
      (rounds.foldl (fun e' source => e'.poll source e.runs.size) (e.launch (asked q order ascending)),
        e.runs.size) := by
  rw [executeOver]
  dsimp only
  rw [Engine.request]
  dsimp only
  rw [hflight]
  rfl

theorem enter_of_created (e : Engine) (hstage : run.stage = .created) :
    e.enter run = some
      (((e.write run.scope.start).beginAttempt { run with started := e.store.clock }).1,
        { run with started := e.store.clock },
        ((e.write run.scope.start).beginAttempt { run with started := e.store.clock }).2) := by
  unfold enter
  rw [hstage]
  rfl

theorem poll_of_created (source : Source) (hrun : e.runs[id]? = some run)
    (hstage : run.stage = .created) :
    e.poll source id = carryOn source id (e.settings.attempts - run.attempt)
      ((e.write run.scope.start).beginAttempt { run with started := e.store.clock }).1
      { run with started := e.store.clock }
      ((e.write run.scope.start).beginAttempt { run with started := e.store.clock }).2 := by
  rw [poll_eq, hrun, Option.bind_some, e.enter_of_created hstage]
  rfl

/-- A run that has been asked for ends when it was polled in all rounds of an execution. -/
theorem due_of_created {run : Run} (hrun : e.runs[id]? = some run) (hstage : run.stage = .created)
    (hattempt : run.attempt = 1) (hasks : e.store.Asks (e.needed run.query) run.key.order)
    (hfound : files.FoundIn source (e.needed run.query) run.key.order) :
    Due files source id (e.rounds + 1) e := by
  have hwrite : (e.write run.scope.start).store.Asks (e.needed run.query) run.key.order :=
    hasks.of_contents_eq rfl
  have hbegin : (Waiting.begin (e.write run.scope.start).store (e.needed run.query)
      run.key.order).1.Asks (e.needed run.query) run.key.order :=
    hwrite.begin (PropertySet.pairwise_toList _)
  have hnears := Waiting.nears_begin (e.needed run.query) run.key.order hbegin.toCoherent
  have hid : id < e.runs.size := (Array.getElem?_eq_some_iff.1 hrun).1
  have hrounds : e.settings.attempts - run.attempt + 2 ≤ e.rounds + 1 := by
    rw [rounds, hattempt]
    omega
  exact .waits hrun (e.enter_of_created hstage) hfound hbegin hnears (by decide) hid hrounds

theorem result?_execute_ne_none {q : Query} {ascending : Bool}
    (hflight : e.inFlight.lookup ⟨q.digest, order, ascending⟩ = none)
    (hasks : e.store.Asks (e.needed q) order) (hfound : files.FoundIn source (e.needed q) order) :
    (e.execute source ⟨q, order, ascending⟩).1.result?
      (e.execute source ⟨q, order, ascending⟩).2 ≠ none := by
  have hdue : Due files source e.runs.size (e.rounds + 1) (e.launch (asked q order ascending)) :=
    due_of_created (e.getElem?_launch (asked q order ascending)) rfl rfl hasks hfound
  rw [execute_eq, executeOver_of_lookup hflight]
  dsimp only
  exact hdue.result?_foldl

end Engine

end CardSearch
