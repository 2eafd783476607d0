import Mathlib.Algebra.GroupWithZero.Nat
import Mathlib.Data.List.Nodup
import CardSearch.Proofs.Engine.Outcomes
import CardSearch.Proofs.Engine.Session

/-!
# Runs that are shared

Requests for one key share a run while it is in flight. Whoever asks and whoever polls, in whatever
order, a run makes its attempts one after another, as many as it may, and leaves the flight when it
ends; all who asked for it have its outcome; and the counters tell what happened.
-/

namespace CardSearch

/-- What the attempts of a run have come to, where so many may be made: all but the last failed. -/
def Run.Made (run : Run) (limit : Nat) (outcomes : List RunOutcome) : Prop :=
  ∃ errors : List ExecutionError, run.attempt = errors.length + 1 ∧ run.attempt ≤ limit ∧
    match run.stage with
    | .created => errors = [] ∧ outcomes = []
    | .loading _ => outcomes = errors.map .error
    | .finished outcome => outcomes = errors.map .error ++ [outcome] ∧
      ∀ error, outcome = .error error → run.attempt = limit

/-- The attempts that a run has made: what those that ended came to, and nothing for the one that
still goes on. -/
def Run.attempts (run : Run) (outcomes : List RunOutcome) : List (Option RunOutcome) :=
  outcomes.map some ++ match run.stage with
    | .loading _ => [none]
    | _ => []

/-- How many attempts failed and were followed by another. -/
def retries : List (Option RunOutcome) → Nat
  | some (.error _) :: next :: rest => retries (next :: rest) + 1
  | _ :: rest => retries rest
  | [] => 0

private theorem retries_errors (errors : List ExecutionError) (last : Option RunOutcome) :
    retries (errors.map (fun e => some (.error e)) ++ [last]) = errors.length := by
  induction errors with
  | nil => rcases last with _ | _ | _ <;> rfl
  | cons e errors ih =>
    cases errors with
    | nil => rcases last with _ | _ | _ <;> rfl
    | cons e' errors => exact congrArg Nat.succ ih

namespace Run

variable {run : Run} {limit : Nat} {outcomes : List RunOutcome}

/-- While a run has not ended, all attempts that ended failed. -/
theorem Made.of_pending (h : run.Made limit outcomes) (hpending : run.result? = none) :
    ∃ errors : List ExecutionError, run.attempt = errors.length + 1 ∧ run.attempt ≤ limit ∧
      outcomes = errors.map .error := by
  obtain ⟨errors, hattempt, hlimit, hstage⟩ := h
  refine ⟨errors, hattempt, hlimit, ?_⟩
  split at hstage
  · rw [hstage.1, hstage.2]
    rfl
  · exact hstage
  · next heq => simp [result?, heq] at hpending

/-- All attempts that a run has made failed, but for the last, which tells the outcome of the run if
that has ended. -/
theorem Made.attempts_eq (h : run.Made limit outcomes) :
    run.attempts outcomes = [] ∧ run.result? = none ∧ run.attempt = 1 ∨
      ∃ errors : List ExecutionError, run.attempts outcomes =
        errors.map (fun error => some (.error error)) ++ [run.result?] ∧
        run.attempt = errors.length + 1 ∧ run.attempt ≤ limit ∧
        ∀ error, run.result? = some (.error error) → run.attempt = limit := by
  obtain ⟨errors, hattempt, hlimit, hstage⟩ := h
  rw [attempts, result?]
  split at hstage
  · next heq =>
    obtain ⟨rfl, rfl⟩ := hstage
    rw [heq]
    exact .inl ⟨rfl, rfl, hattempt⟩
  · next heq =>
    rw [heq, hstage, List.map_map]
    exact .inr ⟨errors, rfl, hattempt, hlimit, fun _ h => by cases h⟩
  · next outcome heq =>
    rw [heq, hstage.1, List.map_append, List.map_map, List.append_nil]
    exact .inr ⟨errors, rfl, hattempt, hlimit, fun error h => hstage.2 error (Option.some.inj h)⟩

theorem Made.retries_eq (h : run.Made limit outcomes) :
    retries (run.attempts outcomes) = run.attempt - 1 := by
  rcases h.attempts_eq with ⟨hnil, -, hattempt⟩ | ⟨errors, heq, hattempt, -, -⟩
  · rw [hnil, hattempt]
    rfl
  · rw [heq, hattempt]
    exact retries_errors errors run.result?

end Run

namespace Engine

variable {e e' : Engine} {id : RunId} {run : Run} {outcomes : RunId → List RunOutcome}

/-- What holds of the runs of an engine at all times, where it is known what their attempts came
to. -/
structure Flight (e : Engine) (outcomes : RunId → List RunOutcome) : Prop where
  mem_iff {key : RunKey} {id : RunId} : (key, id) ∈ e.inFlight ↔
    ∃ run, e.runs[id]? = some run ∧ run.key = key ∧ run.result? = none
  nodup : (e.inFlight.map Prod.fst).Nodup
  made {id : RunId} {run : Run} : e.runs[id]? = some run →
    run.Made e.settings.attempts (outcomes id)
  unmade {id : RunId} : e.runs[id]? = none → outcomes id = []
  size_eq : e.runs.size = e.store.metrics.executed + e.store.metrics.failed + e.inFlight.length
  retried_eq : e.store.metrics.retried = (e.runs.toList.map fun run => run.attempt - 1).sum

theorem Flight.of_eq (h : e.Flight outcomes) (hruns : e'.runs = e.runs)
    (hflight : e'.inFlight = e.inFlight) (hsettings : e'.settings = e.settings)
    (hexecuted : e'.store.metrics.executed = e.store.metrics.executed)
    (hfailed : e'.store.metrics.failed = e.store.metrics.failed)
    (hretried : e'.store.metrics.retried = e.store.metrics.retried) : e'.Flight outcomes := by
  constructor
  · rw [hflight, hruns]
    exact h.mem_iff
  · rw [hflight]
    exact h.nodup
  · rw [hruns, hsettings]
    exact h.made
  · rw [hruns]
    exact h.unmade
  · rw [hruns, hexecuted, hfailed, hflight]
    exact h.size_eq
  · rw [hretried, hruns]
    exact h.retried_eq

theorem Flight.of_keeps (h : e.Flight outcomes) (hkeeps : Keeps e e') : e'.Flight outcomes := by
  obtain ⟨hexecuted, -, hretried, hfailed⟩ := Metrics.eq_of_ofRuns hkeeps.ofRuns_eq
  exact h.of_eq hkeeps.runs_eq hkeeps.inFlight_eq hkeeps.settings_eq hexecuted hfailed hretried

theorem Flight.eq_of_key_eq (h : e.Flight outcomes) {i j : RunId} {run run' : Run}
    (hrun : e.runs[i]? = some run) (hrun' : e.runs[j]? = some run') (hpending : run.result? = none)
    (hpending' : run'.result? = none) (hkey : run.key = run'.key) : i = j := by
  have hi : (run.key, i) ∈ e.inFlight := h.mem_iff.2 ⟨run, hrun, rfl, hpending⟩
  have hj : (run.key, j) ∈ e.inFlight := h.mem_iff.2 ⟨run', hrun', hkey.symm, hpending'⟩
  exact congrArg Prod.snd (List.inj_on_of_nodup_map h.nodup hi hj rfl)

theorem length_filter_key {α β : Type} [BEq α] [LawfulBEq α] {l : List (α × β)} {a : α} {b : β}
    (hnodup : (l.map Prod.fst).Nodup) (h : (a, b) ∈ l) :
    (l.filter (·.1 != a)).length + 1 = l.length := by
  have hcount : (l.map Prod.fst).count a = 1 :=
    List.count_eq_one_of_mem hnodup (List.mem_map_of_mem (f := Prod.fst) h)
  have hsplit := List.length_eq_countP_add_countP (fun x : α × β => x.1 != a) (l := l)
  have hrest : l.countP (fun x => ¬(x.1 != a) = true) = (l.map Prod.fst).count a := by
    rw [List.count, List.countP_map]
    exact List.countP_congr fun x _ => by simp
  rw [hsplit, hrest, hcount, List.countP_eq_length_filter]

private theorem sum_map_set {α : Type} (f : α → Nat) {l : List α} {i : Nat} {a b : α}
    (h : l[i]? = some a) : ((l.set i b).map f).sum + f a = (l.map f).sum + f b := by
  induction l generalizing i with
  | nil => cases h
  | cons c l ih =>
    cases i with
    | zero =>
      cases h
      simp only [List.set_cons_zero, List.map_cons, List.sum_cons]
      omega
    | succ i =>
      have hrest := ih (i := i) (by simpa using h)
      simp only [List.set_cons_succ, List.map_cons, List.sum_cons]
      omega

/-- What the attempts of all runs came to, after one of them was polled. -/
def addOutcomes (outcomes : RunId → List RunOutcome) (id : RunId) (new : List RunOutcome) :
    RunId → List RunOutcome :=
  fun j => if j = id then outcomes j ++ new else outcomes j

def Continues (e e' : Engine) : Prop := ∀ (id : RunId) (run : Run), e.runs[id]? = some run →
  ∃ run', e'.runs[id]? = some run' ∧ run'.key = run.key ∧
    (run.result? ≠ none → run'.result? = run.result?)

theorem Continues.of_runs_eq (h : e'.runs = e.runs) : Continues e e' :=
  fun _ run hrun => ⟨run, h ▸ hrun, rfl, fun _ => rfl⟩

structure Moves (id : RunId) (run run' : Run) (e e' : Engine) : Prop where
  run_eq : e.runs[id]? = some run
  pending : run.result? = none
  runs_eq : e'.runs = e.runs.setIfInBounds id run'
  key_eq : run'.key = run.key
  settings_eq : e'.settings = e.settings

namespace Moves

variable {run' : Run}

theorem getElem?_runs (h : Moves id run run' e e') (j : RunId) :
    e'.runs[j]? = if j = id then some run' else e.runs[j]? := by
  have hid := (Array.getElem?_eq_some_iff.1 h.run_eq).1
  rw [h.runs_eq, Array.getElem?_setIfInBounds]
  grind

theorem size_eq (h : Moves id run run' e e') : e'.runs.size = e.runs.size := by
  rw [h.runs_eq, Array.size_setIfInBounds]

theorem continues (h : Moves id run run' e e') : Continues e e' := by
  intro j other hother
  rw [h.getElem?_runs]
  split
  · next heq =>
    subst heq
    cases h.run_eq.symm.trans hother
    exact ⟨run', rfl, h.key_eq, fun hended => absurd h.pending hended⟩
  · exact ⟨other, hother, rfl, fun _ => rfl⟩

theorem sum_eq (h : Moves id run run' e e') (f : Run → Nat) :
    (e'.runs.toList.map f).sum + f run = (e.runs.toList.map f).sum + f run' := by
  rw [h.runs_eq, Array.toList_setIfInBounds]
  exact sum_map_set f (by rw [Array.getElem?_toList]; exact h.run_eq)

theorem unmade (h : Moves id run run' e e') (hflight : e.Flight outcomes) (new : List RunOutcome)
    {j : RunId} (hj : e'.runs[j]? = none) : addOutcomes outcomes id new j = [] := by
  rw [h.getElem?_runs] at hj
  split at hj
  · cases hj
  · next hne => exact (if_neg hne).trans (hflight.unmade hj)

theorem made (h : Moves id run run' e e') (hflight : e.Flight outcomes) {new : List RunOutcome}
    (hmade : run'.Made e.settings.attempts (outcomes id ++ new)) {j : RunId} {other : Run}
    (hother : e'.runs[j]? = some other) :
    other.Made e'.settings.attempts (addOutcomes outcomes id new j) := by
  rw [h.getElem?_runs] at hother
  rw [h.settings_eq, addOutcomes]
  split at hother
  · next heq =>
    cases hother
    rwa [if_pos heq, heq]
  · next hne =>
    rw [if_neg hne]
    exact hflight.made hother

end Moves

/-- An attempt goes on, after some that failed. -/
theorem Flight.waits (h : e.Flight outcomes) {run' : Run} (hmoves : Moves id run run' e e')
    {errors : List ExecutionError} {waiting : Waiting}
    (hn : errors.length ≤ e.settings.attempts - run.attempt)
    (hattempt : run'.attempt = run.attempt + errors.length) (hstage : run'.stage = .loading waiting)
    (hflight : e'.inFlight = e.inFlight)
    (hmetrics : e'.store.metrics.ofRuns = e.store.metrics.ofRuns.addRetries errors.length) :
    e'.Flight (addOutcomes outcomes id (errors.map .error)) := by
  obtain ⟨earlier, hearlier, hlimit, hold⟩ := (h.made hmoves.run_eq).of_pending hmoves.pending
  obtain ⟨hexecuted, -, hretried, hfailed⟩ :=
    Metrics.eq_of_ofRuns (m := e.store.metrics.addRetries errors.length) hmetrics
  constructor
  · intro key j
    rw [hflight, h.mem_iff, hmoves.getElem?_runs]
    split
    · next heq =>
      subst heq
      have hpending' : run'.result? = none := by rw [Run.result?, hstage]
      simp [hmoves.run_eq, hmoves.pending, hmoves.key_eq, hpending']
    · rfl
  · rw [hflight]
    exact h.nodup
  · refine hmoves.made h ⟨earlier ++ errors, ?_, by omega, ?_⟩
    · rw [hattempt, hearlier, List.length_append]
      omega
    · rw [hstage, hold, List.map_append]
  · exact hmoves.unmade h _
  · rw [hmoves.size_eq, hexecuted, hfailed, hflight]
    exact h.size_eq
  · have hsum := hmoves.sum_eq fun run => run.attempt - 1
    have hretried : e'.store.metrics.retried = e.store.metrics.retried + errors.length := hretried
    rw [hretried, h.retried_eq]
    omega

/-- A run ends, after some attempts that failed. -/
theorem Flight.ends (h : e.Flight outcomes) {run' : Run} (hmoves : Moves id run run' e e')
    {errors : List ExecutionError} {outcome : RunOutcome}
    (hn : errors.length ≤ e.settings.attempts - run.attempt)
    (hall : ∀ error, outcome = .error error → errors.length = e.settings.attempts - run.attempt)
    (hattempt : run'.attempt = run.attempt + errors.length) (hstage : run'.stage = .finished outcome)
    (hflight : e'.inFlight = e.inFlight.filter (·.1 != run.key))
    (hmetrics : e'.store.metrics.ofRuns =
      (e.store.metrics.ofRuns.addRetries errors.length).addRun outcome) :
    e'.Flight (addOutcomes outcomes id (errors.map .error ++ [outcome])) := by
  obtain ⟨earlier, hearlier, hlimit, hold⟩ := (h.made hmoves.run_eq).of_pending hmoves.pending
  obtain ⟨hexecuted, -, hretried, hfailed⟩ := Metrics.eq_of_ofRuns
    (hmetrics.trans (Metrics.ofRuns_addRun (e.store.metrics.addRetries errors.length) outcome).symm)
  have hself : (run.key, id) ∈ e.inFlight := h.mem_iff.2 ⟨run, hmoves.run_eq, rfl, hmoves.pending⟩
  constructor
  · intro key j
    rw [hflight, List.mem_filter, h.mem_iff, hmoves.getElem?_runs]
    split
    · next heq =>
      -- the run has ended, and its key is no longer in flight
      subst heq
      have hended : run'.result? = some outcome := by rw [Run.result?, hstage]
      simpa [hmoves.run_eq, hmoves.pending, hended] using Eq.symm
    · next hne =>
      refine and_iff_left_of_imp fun hpresent => ?_
      obtain ⟨other, hother, hkey, hpending⟩ := hpresent
      rw [bne_iff_ne]
      rintro rfl
      exact hne (h.eq_of_key_eq hother hmoves.run_eq hpending hmoves.pending hkey)
  · rw [hflight]
    exact h.nodup.sublist (List.filter_sublist.map _)
  · refine hmoves.made h ⟨earlier ++ errors, ?_, by omega, ?_⟩
    · rw [hattempt, hearlier, List.length_append]
      omega
    · rw [hstage, hold]
      refine ⟨by rw [List.map_append, List.append_assoc], fun error herror => ?_⟩
      have := hall error herror
      omega
  · exact hmoves.unmade h _
  · have hlength := length_filter_key h.nodup hself
    have hcount : e'.store.metrics.executed + e'.store.metrics.failed =
        e.store.metrics.executed + e.store.metrics.failed + 1 := by
      rw [hexecuted, hfailed]
      exact Metrics.ended_addRun ..
    rw [hmoves.size_eq, hcount, h.size_eq, hflight]
    omega
  · have hsum := hmoves.sum_eq fun run => run.attempt - 1
    have hretried : e'.store.metrics.retried = e.store.metrics.retried + errors.length :=
      hretried.trans (Metrics.retried_addRun ..)
    rw [hretried, h.retried_eq]
    omega

theorem Flight.poll (h : e.Flight outcomes) (source : Source) (id : RunId) :
    (e.poll source id).Flight (addOutcomes outcomes id (e.outcomes source id)) ∧
      Continues e (e.poll source id) ∧ (e.poll source id).settings = e.settings ∧
      (e.poll source id).runs.size = e.runs.size ∧
      (e.poll source id).store.metrics.deduplicated = e.store.metrics.deduplicated := by
  by_cases hpending : ∃ run, e.runs[id]? = some run ∧ run.result? = none
  · obtain ⟨run, hrun, hpending⟩ := hpending
    obtain ⟨started, hflies⟩ := flies_poll source hrun hpending
    generalize e.outcomes source id = new at *
    generalize e.poll source id = e' at *
    cases hflies with
    | waits errors waiting hn hruns hflight hsettings hmetrics =>
      have hmoves : Moves id run _ e e' := ⟨hrun, hpending, hruns, rfl, hsettings⟩
      refine ⟨h.waits hmoves hn rfl rfl hflight hmetrics, hmoves.continues, hsettings,
        hmoves.size_eq, ?_⟩
      exact (Metrics.eq_of_ofRuns (m := e.store.metrics.addRetries errors.length) hmetrics).2.1
    | ends errors outcome hn hall hruns hflight hsettings hmetrics =>
      have hmoves : Moves id run _ e e' := ⟨hrun, hpending, hruns, rfl, hsettings⟩
      refine ⟨h.ends hmoves hn hall rfl rfl hflight hmetrics, hmoves.continues, hsettings,
        hmoves.size_eq, ?_⟩
      have hcount := Metrics.eq_of_ofRuns (hmetrics.trans
        (Metrics.ofRuns_addRun (e.store.metrics.addRetries errors.length) outcome).symm)
      exact hcount.2.1.trans (Metrics.deduplicated_addRun ..)
  · have hended : ∀ run, e.runs[id]? = some run → run.result? ≠ none :=
      fun run hrun hnone => hpending ⟨run, hrun, hnone⟩
    have hsame : addOutcomes outcomes id [] = outcomes := by
      funext j
      simp [addOutcomes]
    rw [poll_eq_self source hended, outcomes_eq_nil source hended, hsame]
    exact ⟨h, .of_runs_eq rfl, rfl, rfl, rfl⟩

theorem Flight.lookup_eq (h : e.Flight outcomes) (hrun : e.runs[id]? = some run)
    (hpending : run.result? = none) : e.inFlight.lookup run.key = some id := by
  have hmem : (run.key, id) ∈ e.inFlight := h.mem_iff.2 ⟨run, hrun, rfl, hpending⟩
  cases hlookup : e.inFlight.lookup run.key with
  | none => exact absurd hmem (not_mem_of_lookup hlookup)
  | some j =>
    exact congrArg (some ·.2) (List.inj_on_of_nodup_map h.nodup (mem_of_lookup hlookup) hmem rfl)

theorem Flight.push (h : e.Flight outcomes) {q : Query} {key : RunKey}
    (hlookup : e.inFlight.lookup key = none) : Flight
      { e with runs := e.runs.push { query := q, key }, inFlight := (key, e.runs.size) :: e.inFlight }
      outcomes := by
  have hget (j : RunId) : (e.runs.push { query := q, key })[j]? =
      if j = e.runs.size then some { query := q, key } else e.runs[j]? := Array.getElem?_push
  have hfree : key ∉ e.inFlight.map Prod.fst := by
    intro hkey
    obtain ⟨x, hx, rfl⟩ := List.mem_map.1 hkey
    exact not_mem_of_lookup hlookup hx
  constructor
  · intro key' j
    rw [List.mem_cons, h.mem_iff, hget]
    by_cases hj : j = e.runs.size
    · simp [hj, Run.result?, eq_comm]
    · simp [hj]
  · exact List.nodup_cons.2 ⟨hfree, h.nodup⟩
  · intro j other hother
    have hother := (hget j).symm.trans hother
    split at hother
    · next heq =>
      cases hother
      have hnone : e.runs[j]? = none := Array.getElem?_eq_none (Nat.le_of_eq heq.symm)
      exact ⟨[], rfl, Nat.le_max_right .., rfl, h.unmade hnone⟩
    · exact h.made hother
  · intro j hj
    have hj := (hget j).symm.trans hj
    split at hj
    · cases hj
    · exact h.unmade hj
  · rw [Array.size_push, h.size_eq, List.length_cons]
    exact Nat.add_assoc ..
  · rw [Array.toList_push, List.map_append, List.sum_append]
    exact h.retried_eq

/-- What asking for a run comes to: a run in flight is joined, or one is added that is then in
flight. -/
structure Flight.Requests (outcomes : RunId → List RunOutcome) (key : RunKey) (e : Engine)
    (r : Engine × RunId) : Prop where
  flight : r.1.Flight outcomes
  continues : Continues e r.1
  settings_eq : r.1.settings = e.settings
  run : ∃ run, r.1.runs[r.2]? = some run ∧ run.key = key
  counted : r.1.store.metrics.deduplicated + r.1.runs.size =
    e.store.metrics.deduplicated + e.runs.size + 1

private theorem Flight.request (h : e.Flight outcomes) (q : Query) (order : SortOrder)
    (ascending : Bool) :
    Flight.Requests outcomes ⟨q.digest, order, ascending⟩ e (e.request q order ascending) := by
  unfold Engine.request
  dsimp only
  split
  · next id hlookup =>
    obtain ⟨run, hrun, hkey, -⟩ := h.mem_iff.1 (mem_of_lookup hlookup)
    exact ⟨h.of_eq rfl rfl rfl rfl rfl rfl, .of_runs_eq rfl, rfl, ⟨run, hrun, hkey⟩,
      Nat.add_right_comm ..⟩
  · next hlookup =>
    refine ⟨h.push hlookup, fun j run hrun => ⟨run, ?_, rfl, fun _ => rfl⟩, rfl,
      ⟨_, Array.getElem?_push_size, rfl⟩, ?_⟩
    · have hj := (Array.getElem?_eq_some_iff.1 hrun).1
      rw [Array.getElem?_push, if_neg (Nat.ne_of_lt hj), hrun]
    · rw [Array.size_push]
      exact (Nat.add_assoc ..).symm

end Engine

/-- What neither asks for a run nor polls one counts nothing of runs. -/
theorem Session.keeps_step (s : Session) {action : SessionStep}
    (hrequest : ∀ q order ascending, action ≠ .request q order ascending)
    (hpoll : ∀ source id, action ≠ .poll source id) :
    Engine.Keeps s.engine (s.step action).engine := by
  have hstore {store : CardStore} (h : store.metrics.ofRuns = s.engine.store.metrics.ofRuns) :
      Engine.Keeps s.engine { s.engine with store } := ⟨rfl, rfl, rfl, h⟩
  cases action with
  | request q order ascending => exact absurd rfl (hrequest q order ascending)
  | poll source id => exact absurd rfl (hpoll source id)
  | preload properties order => exact hstore (congrArg _ (Waiting.metrics_begin ..))
  | pollPreload source i =>
    rcases engine_pollPreload s source i with hsame | ⟨w, hw⟩
    · rw [hsame]
      exact .refl _
    · rw [hw]
      exact hstore (w.ofRuns_poll ..)
  | load p => exact hstore (congrArg _ (CardStore.metrics_request ..))
  | loadSorter order => exact hstore (congrArg _ (CardStore.metrics_request ..))
  | pollLoad source id => exact hstore (CardStore.ofRuns_poll ..)
  | createSubset subset =>
    change Engine.Keeps s.engine (s.engine.createSubset subset).1
    unfold Engine.createSubset
    split <;> exact ⟨rfl, rfl, rfl, rfl⟩
  | updateSubset subset => exact ⟨rfl, rfl, rfl, rfl⟩
  | wait time => exact hstore rfl

structure Requester where
  key : RunKey
  run : RunId
  /-- Whether the request has not been abandoned. -/
  waits : Bool := true
  /-- What was received. -/
  answer? : Option RunOutcome := none

/-- A step of those who share an engine: anything that a session does, where asking for a run makes
one a requester; a requester polls its run, and receives the outcome if the run has ended; or gives
up. -/
inductive ServiceStep
  | act (action : SessionStep)
  | await (source : Source) (i : Nat)
  | abandon (i : Nat)

/-- A session with all requesters so far. For each run it is noted what its attempts came to. -/
structure Service where
  session : Session
  requesters : List Requester := []
  outcomes : RunId → List RunOutcome := fun _ => []

namespace Service

abbrev engine (v : Service) : Engine := v.session.engine

/-- Nothing has happened yet. -/
def start (refetchInterval : Nat) (subsets : SubsetStore) (settings : EngineSettings) : Service where
  session := .start refetchInterval subsets settings

def act (v : Service) (action : SessionStep) : Service where
  session := v.session.step action
  requesters := match action with
    | .request q order ascending =>
      v.requesters ++ [⟨⟨q.digest, order, ascending⟩, (v.engine.request q order ascending).2, true, none⟩]
    | _ => v.requesters
  outcomes := match action with
    | .poll source id => Engine.addOutcomes v.outcomes id (v.engine.outcomes source id)
    | _ => v.outcomes

def step (v : Service) : ServiceStep → Service
  | .act action => v.act action
  | .await source i =>
    match v.requesters[i]? with
    | none => v
    | some r =>
      if r.waits && r.answer?.isNone then
        let v := v.act (.poll source r.run)
        { v with requesters := v.requesters.set i { r with answer? := v.engine.result? r.run } }
      else v
  | .abandon i =>
    { v with requesters := v.requesters.modify i fun r => { r with waits := false } }

def run (v : Service) (steps : List ServiceStep) : Service := steps.foldl step v

/-- A requester has a run of its key, and has received nothing else than what the run came to. -/
def Serves (e : Engine) (r : Requester) : Prop := ∃ run, e.runs[r.run]? = some run ∧
  run.key = r.key ∧ ∀ outcome, r.answer? = some outcome → run.result? = some outcome

structure Sound (settings : EngineSettings) (v : Service) : Prop where
  settings_eq : v.engine.settings = settings
  flight : v.engine.Flight v.outcomes
  serves : ∀ r ∈ v.requesters, Serves v.engine r
  counted : v.requesters.length = v.engine.store.metrics.deduplicated + v.engine.runs.size

variable {v : Service} {settings : EngineSettings} {e e' : Engine} {r : Requester}

theorem Serves.continues (h : Serves e r) (hcontinues : Engine.Continues e e') : Serves e' r := by
  obtain ⟨run, hrun, hkey, hanswer⟩ := h
  obtain ⟨run', hrun', hkey', hresult⟩ := hcontinues _ run hrun
  refine ⟨run', hrun', hkey'.trans hkey, fun outcome houtcome => ?_⟩
  have hended := hanswer outcome houtcome
  exact (hresult (by simp [hended])).trans hended

private theorem Sound.keeps (h : v.Sound settings) {action : SessionStep}
    (hrequest : ∀ q order ascending, action ≠ .request q order ascending)
    (hpoll : ∀ source id, action ≠ .poll source id)
    (hact : v.act action = { v with session := v.session.step action }) :
    (v.act action).Sound settings := by
  have hkeeps := v.session.keeps_step hrequest hpoll
  obtain ⟨-, hdeduplicated, -, -⟩ := Metrics.eq_of_ofRuns hkeeps.ofRuns_eq
  rw [hact]
  refine ⟨hkeeps.settings_eq.trans h.settings_eq, h.flight.of_keeps hkeeps,
    fun r hr => (h.serves r hr).continues (.of_runs_eq hkeeps.runs_eq), ?_⟩
  change v.requesters.length = (v.session.step action).engine.store.metrics.deduplicated +
    (v.session.step action).engine.runs.size
  rw [hdeduplicated, hkeeps.runs_eq]
  exact h.counted

private theorem Sound.act (h : v.Sound settings) (action : SessionStep) :
    (v.act action).Sound settings := by
  cases action with
  | request q order ascending =>
    have hrequests := h.flight.request q order ascending
    refine ⟨hrequests.settings_eq.trans h.settings_eq, hrequests.flight, fun r hr => ?_, ?_⟩
    · rcases List.mem_append.1 hr with hr | hr
      · exact (h.serves r hr).continues hrequests.continues
      · obtain rfl := List.mem_singleton.1 hr
        obtain ⟨run, hrun, hkey⟩ := hrequests.run
        exact ⟨run, hrun, hkey, fun _ h => by cases h⟩
    · refine Eq.trans ?_ hrequests.counted.symm
      rw [← h.counted]
      exact List.length_append
  | poll source id =>
    obtain ⟨hflight, hcontinues, hsettings, hsize, hdeduplicated⟩ := h.flight.poll source id
    refine ⟨hsettings.trans h.settings_eq, hflight, fun r hr => (h.serves r hr).continues hcontinues, ?_⟩
    exact h.counted.trans (congrArg₂ (· + ·) hdeduplicated hsize).symm
  | preload | pollPreload | load | loadSorter | pollLoad | createSubset | updateSubset | wait =>
    exact h.keeps nofun nofun rfl

/-- Requesters may change as long as each of them is still served. -/
theorem Sound.withRequesters (h : v.Sound settings) {requesters : List Requester}
    (hlength : requesters.length = v.requesters.length) (hserves : ∀ r ∈ requesters, Serves v.engine r) :
    Sound settings { v with requesters } :=
  ⟨h.settings_eq, h.flight, hserves, hlength.trans h.counted⟩

private theorem Sound.step (h : v.Sound settings) (x : ServiceStep) :
    (v.step x).Sound settings := by
  cases x with
  | act action => exact h.act action
  | await source i =>
    rw [Service.step]
    split
    · exact h
    · next r hr =>
      split
      · have hact := h.act (.poll source r.run)
        refine hact.withRequesters List.length_set fun r' hr' => ?_
        rcases List.mem_or_eq_of_mem_set hr' with hr' | rfl
        · exact hact.serves r' hr'
        · obtain ⟨run, hrun, hkey, -⟩ := hact.serves r (List.mem_of_getElem? hr)
          refine ⟨run, hrun, hkey, fun outcome houtcome => ?_⟩
          simpa [Engine.result?, hrun] using houtcome
      · exact h
  | abandon i =>
    refine h.withRequesters (List.length_modify ..) fun r hr => ?_
    obtain ⟨j, hj⟩ := List.getElem?_of_mem hr
    rw [List.getElem?_modify] at hj
    obtain ⟨r', hr', rfl⟩ := Option.map_eq_some_iff.1 hj
    have hserved := h.serves r' (List.mem_of_getElem? hr')
    split <;> exact hserved

theorem sound_start (refetchInterval : Nat) (subsets : SubsetStore) (settings : EngineSettings) :
    (start refetchInterval subsets settings).Sound settings where
  settings_eq := rfl
  flight := by
    refine ⟨by simp [start, Session.start], .nil, fun {id run} hrun => ?_, fun _ => rfl, rfl, rfl⟩
    cases hrun
  serves := fun r hr => by cases hr
  counted := rfl

theorem Sound.run (h : v.Sound settings) (steps : List ServiceStep) :
    (v.run steps).Sound settings := by
  induction steps generalizing v with
  | nil => exact h
  | cons x steps ih => exact ih (h.step x)

def attempts (v : Service) (id : RunId) : List (Option RunOutcome) :=
  match v.engine.runs[id]? with
  | none => []
  | some run => run.attempts (v.outcomes id)

private theorem Sound.retried_eq (h : v.Sound settings) : v.engine.store.metrics.retried =
    ((List.range v.engine.runs.size).map fun id => retries (v.attempts id)).sum := by
  rw [h.flight.retried_eq]
  refine congrArg List.sum (List.ext_getElem? fun id => ?_)
  rw [List.getElem?_map, List.getElem?_map, Array.getElem?_toList]
  cases hrun : v.engine.runs[id]? with
  | none =>
    have hid : v.engine.runs.size ≤ id := Array.getElem?_eq_none_iff.1 hrun
    rw [List.getElem?_eq_none (by simpa using hid)]
    rfl
  | some run =>
    have hid := (Array.getElem?_eq_some_iff.1 hrun).1
    rw [List.getElem?_range hid, Option.map_some, Option.map_some, attempts, hrun,
      (h.flight.made hrun).retries_eq]

/-- What sharing runs promises, where a run may make so many attempts. -/
structure SharesRuns (limit : Nat) (v : Service) : Prop where
  /-- In flight are the runs that have not ended, each under its key. -/
  mem_inFlight_iff {key : RunKey} {id : RunId} : (key, id) ∈ v.engine.inFlight ↔
    ∃ run, v.engine.runs[id]? = some run ∧ run.key = key ∧ run.result? = none
  /-- The keys in flight are different. -/
  nodup_keys : (v.engine.inFlight.map Prod.fst).Nodup
  /-- Of one key at most one run has not ended. -/
  single {i j : RunId} {run run' : Run} : v.engine.runs[i]? = some run →
    v.engine.runs[j]? = some run' → run.result? = none → run'.result? = none →
    run.key = run'.key → i = j
  /-- A request for the key of a run that has not ended joins that run. -/
  joins {id : RunId} {run : Run} {q : Query} {order : SortOrder} {ascending : Bool} :
    v.engine.runs[id]? = some run → run.result? = none → run.key = ⟨q.digest, order, ascending⟩ →
    (v.engine.request q order ascending).2 = id ∧
      (v.engine.request q order ascending).1.runs = v.engine.runs
  /-- A requester has a run of its key, and has received nothing else than its outcome. -/
  serves : ∀ r ∈ v.requesters, Serves v.engine r
  /-- A requester that waits receives the outcome of its run as soon as it finds that it ended. -/
  receives {i : Nat} {r : Requester} (source : Source) : v.requesters[i]? = some r →
    r.waits = true → r.answer? = none → (v.step (.await source i)).requesters[i]? =
      some { r with answer? := (v.step (.await source i)).engine.result? r.run }
  /-- A run makes its attempts one after another, as long as they fail and it may make more. The
  last one gives the outcome of the run. -/
  attempts_eq {id : RunId} {run : Run} : v.engine.runs[id]? = some run →
    v.attempts id = [] ∧ run.result? = none ∨ ∃ errors : List ExecutionError,
      v.attempts id = errors.map (fun error => some (.error error)) ++ [run.result?] ∧
      (v.attempts id).length ≤ limit ∧
      ∀ error, run.result? = some (.error error) → (v.attempts id).length = limit
  requests_eq : v.requesters.length = v.engine.store.metrics.deduplicated + v.engine.runs.size
  runs_eq : v.engine.runs.size = v.engine.store.metrics.executed + v.engine.store.metrics.failed +
    v.engine.inFlight.length
  retried_eq : v.engine.store.metrics.retried =
    ((List.range v.engine.runs.size).map fun id => retries (v.attempts id)).sum

private theorem Sound.sharesRuns (h : v.Sound settings) :
    v.SharesRuns (max 1 settings.maxAttempts) where
  mem_inFlight_iff := h.flight.mem_iff
  nodup_keys := h.flight.nodup
  single := h.flight.eq_of_key_eq
  joins {id run q order ascending} hrun hpending hkey := by
    have hlookup := h.flight.lookup_eq hrun hpending
    rw [hkey] at hlookup
    unfold Engine.request
    dsimp only
    rw [hlookup]
    exact ⟨rfl, rfl⟩
  serves := h.serves
  receives {i r} source hr hwaits hanswer := by
    have hi := (List.getElem?_eq_some_iff.1 hr).1
    have hstep : v.step (.await source i) = { v.act (.poll source r.run) with
        requesters := v.requesters.set i
          { r with answer? := (v.act (.poll source r.run)).engine.result? r.run } } := by
      simp only [Service.step, hr, hwaits, hanswer]
      rfl
    rw [hstep]
    exact List.getElem?_set_self hi
  attempts_eq {id run} hrun := by
    rw [attempts, hrun]
    rcases (h.flight.made hrun).attempts_eq with
      ⟨hnil, hpending, -⟩ | ⟨errors, heq, hattempt, hlimit, hall⟩
    · exact .inl ⟨hnil, hpending⟩
    · have hlength : (run.attempts (v.outcomes id)).length = run.attempt := by
        rw [heq, hattempt, List.length_append, List.length_map]
        rfl
      rw [h.settings_eq, EngineSettings.attempts, Nat.max_comm] at hlimit hall
      exact .inr ⟨errors, heq, hlength ▸ hlimit, fun error herror => hlength.trans (hall error herror)⟩
  requests_eq := h.counted
  runs_eq := h.flight.size_eq
  retried_eq := h.retried_eq

/-- Whoever asks, polls or gives up, and whatever the source answers, runs are shared. -/
theorem sharesRuns_run (refetchInterval : Nat) (subsets : SubsetStore) (settings : EngineSettings)
    (steps : List ServiceStep) : ((start refetchInterval subsets settings).run steps).SharesRuns
      (max 1 settings.maxAttempts) :=
  ((sound_start refetchInterval subsets settings).run steps).sharesRuns

end Service

end CardSearch
