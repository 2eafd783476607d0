import CardSearch.Engine.Rounds
import CardSearch.Proofs.Engine.Agreement
import CardSearch.Proofs.Engine.Outcomes
import CardSearch.Proofs.Store.Completion
import CardSearch.Proofs.Store.Files

/-!
# Executing a request over files that belong together

A request that is executed on a store with nothing loaded comes to what evaluating its condition
comes to on the columns that its properties load, in whatever order the fetches are answered. It has
ended when all of them are. An error of the evaluation is met by every attempt.
-/

namespace CardSearch

open CardStore

def Engine.outcomeOn (catalog : Catalog) (subsets : SubsetStore) (settings : EngineSettings)
    (key : RunKey) (x : Sorter) (c : Condition) : RunOutcome :=
  match (Scan.all ⟨catalog, subsets, c⟩ settings.selection settings.arenaBytes).firsts with
  | .error error => .error (.evaluation error)
  | .ok firsts => .ok (resultOf catalog key x firsts)

theorem Engine.evaluate_snd (e : Engine) (run : Run) (x : Sorter) : (e.evaluate run x).2 =
    outcomeOn e.store.catalog e.subsets e.settings run.key x run.query.condition := by
  unfold evaluate outcomeOn
  dsimp only
  generalize Scan.all ⟨e.store.catalog, e.subsets, run.query.condition⟩ e.settings.selection
    e.settings.arenaBytes = scan
  cases scan.firsts with
  | error error => rfl
  | ok firsts => rfl

theorem Engine.poll_of_result {e : Engine} {id : RunId} {outcome : RunOutcome}
    (h : e.result? id = some outcome)
    (source : Source) : e.poll source id = e := by
  obtain ⟨run, hrun, hended⟩ := Option.bind_eq_some_iff.1 h
  refine poll_eq_self source fun run' hrun' => ?_
  cases hrun.symm.trans hrun'
  rw [hended]
  exact Option.some_ne_none outcome

theorem Engine.result?_foldl_poll {e : Engine} {id : RunId} {outcome : RunOutcome}
    (h : e.result? id = some outcome)
    (rounds : List Source) :
    (rounds.foldl (fun e source => e.poll source id) e).result? id = some outcome := by
  induction rounds with
  | nil => exact h
  | cons source rounds ih => rwa [List.foldl_cons, poll_of_result h]

theorem Engine.result?_endRun {id : RunId} (e : Engine) (hid : id < e.runs.size) (run : Run)
    (outcome : RunOutcome) : (e.endRun id run outcome).result? id = some outcome := by
  obtain ⟨-, -, -, hruns⟩ := e.endRun_spec id run outcome
  rw [Engine.result?, hruns, Array.getElem?_setIfInBounds_self_of_lt hid]
  rfl

/-- A request is executed by itself, and polled each time over what the fetches have got by then. -/
def Engine.executeOver (rounds : List Source) (e : Engine) (request : RunRequest) : Engine × RunId :=
  let (e, id) := e.request request.query request.order request.ascending
  (rounds.foldl (fun e source => e.poll source id) e, id)

namespace FileSet

open Engine

variable {files : FileSet} {source part : Source} {rounds : List Source} {e : Engine} {id : RunId}
  {run : Run} {w : Waiting} {outcome : RunOutcome}

def answer (files : FileSet) (e : Engine) (run : Run) : RunOutcome :=
  outcomeOn (files.catalog (e.needed run.query)) e.subsets e.settings run.key files.sorter
    run.query.condition

structure Underway (files : FileSet) (e : Engine) (run : Run) (w : Waiting) (rounds : List Source) :
    Prop where
  serves : files.Serves (e.needed run.query) run.key.order e.store
  sound : w.Sound e.store (e.needed run.query) run.key.order e.store.generation
  ends : w.EndsIn e.store run.key.order files.sorter rounds

/-- An attempt begins to wait for loads that end in these rounds, if each of the targets that it asks
for has ended or is answered in one after the first. -/
theorem Serves.beginAttempt (h : files.Serves (e.needed run.query) run.key.order e.store)
    (hheld : files.HeldBy source (e.needed run.query) run.key.order)
    (hends : ∀ target : LoadTarget, target.AskedFor (e.needed run.query) run.key.order →
      e.store.contents.HasEnded target ∨ target.AnsweredIn rounds.tail) :
    files.Underway (e.beginAttempt run).1 run (e.beginAttempt run).2 rounds := by
  obtain ⟨hserves, hwaits⟩ := h.begin hheld (PropertySet.pairwise_toList _) hends
  obtain ⟨fetched, hvalid⟩ := h.valid
  obtain ⟨-, -, -, hsound⟩ := beginAttempt_spec source hvalid run
  exact ⟨hserves, hsound, hwaits⟩

structure Leaves (files : FileSet) (e : Engine) (run : Run) (e' : Engine) : Prop where
  serves : files.Serves (e'.needed run.query) run.key.order e'.store
  runs_eq : e'.runs = e.runs
  settings_eq : e'.settings = e.settings
  answer_eq : files.answer e' run = files.answer e run

/-- What was waited for has been loaded, and that is all that is asked for. -/
theorem Serves.hasEnded {needed : List Property} {order : SortOrder} {s : CardStore} {x : Sorter}
    (h : files.Serves needed order s) (hsound : w.Sound s needed order s.generation)
    (hready : w.Ready s x) :
    (∀ p : Property, s.contents.HasLoaded p ↔ p.LoadedFor needed) ∧
      ∀ target : LoadTarget, target.AskedFor needed order → s.contents.HasEnded target := by
  obtain ⟨fetched, hvalid⟩ := h.valid
  have hloaded := h.hasLoaded_iff (Contents.reloaded_of_sound hvalid hsound hready).1
  refine ⟨hloaded, fun target htarget => ?_⟩
  cases target with
  | column p =>
    obtain ⟨id, hid, l, hl⟩ := (hloaded p).2 htarget
    exact ⟨id, hid, by simp [hl]⟩
  | sorter other =>
    obtain rfl : other = order := htarget
    have hsorter : s.contents.result? w.sorter = some (.ok (.sorter x)) := hready.sorter
    exact ⟨_, hsound.sorter.current_of_ok hsorter, by simp [hsorter]⟩

/-- Taking an attempt as far as it goes either ends it with what the run comes to, all loads having
ended, or leaves fewer rounds to wait. -/
theorem Underway.attempt (h : files.Underway e run w (part :: rounds))
    (hheld : files.HeldBy source (e.needed run.query) run.key.order) (hpart : part.PartOf source) :
    ∃ e', files.Leaves e run e' ∧
      (e.attempt part run w = (e', .inr (files.answer e run)) ∧
        (∀ target : LoadTarget, target.AskedFor (e'.needed run.query) run.key.order →
          e'.store.contents.HasEnded target) ∨
      ∃ w', e.attempt part run w = (e', .inl w') ∧ rounds ≠ [] ∧
        files.Underway e' run w' rounds) := by
  obtain ⟨fetched, hvalid⟩ := h.serves.valid
  have hgoes := Waiting.goes_poll part hvalid h.sound
  obtain ⟨s', hserves, hpoll | ⟨w', hpoll, hrounds, hends⟩⟩ :=
    h.serves.poll_waiting hheld hpart h.ends
  · rw [hpoll] at hgoes
    obtain ⟨hloaded, hended⟩ : (∀ p : Property, s'.contents.HasLoaded p ↔
        p.LoadedFor (e.needed run.query)) ∧ ∀ target : LoadTarget,
          target.AskedFor (e.needed run.query) run.key.order → s'.contents.HasEnded target := by
      cases hgoes with
      | ready _ hgen hsound hready => exact hserves.hasEnded (hgen ▸ hsound) hready
    have hcatalog := hserves.catalog_eq hheld hloaded
    obtain ⟨hreports, -⟩ := ({ e with store := s' } : Engine).evaluate_spec run files.sorter
    have hresult := ({ e with store := s' } : Engine).evaluate_snd run files.sorter
    have hanswer : (({ e with store := s' } : Engine).evaluate run files.sorter).2 =
        files.answer e run := hresult.trans (congrArg (outcomeOn · _ _ _ _ _) hcatalog)
    have hneeded := needed_congr (e := e) hreports.settings_eq run.query
    refine ⟨_, ⟨?_, hreports.runs_eq, hreports.settings_eq, ?_⟩, .inl ⟨?_, fun target htarget => ?_⟩⟩
    · rw [hneeded]
      exact hserves.of_contents_eq hreports.contents_eq
    · rw [answer, answer, hneeded, hreports.subsets_eq, hreports.settings_eq]
    · rw [← hanswer, Engine.attempt, hpoll]
    · rw [hreports.contents_eq]
      exact hended target (hneeded ▸ htarget)
  · rw [hpoll] at hgoes
    refine ⟨{ e with store := s' }, ⟨hserves, rfl, rfl, rfl⟩,
      .inr ⟨w', by rw [Engine.attempt, hpoll], hrounds, hserves, ?_, hends⟩⟩
    cases hgoes with
    | pending _ hgen hsound =>
      rw [← hgen] at hsound
      exact hsound

/-- A run that comes to an outcome in these rounds: it has ended, or is carried on from an attempt
that is underway. -/
inductive Comes (files : FileSet) (source : Source) (outcome : RunOutcome) (id : RunId)
    (rounds : List Source) (e : Engine) : Prop
  | ended (hresult : e.result? id = some outcome)
  | waits {run run' : Run} {e' : Engine} {w : Waiting} (hrun : e.runs[id]? = some run)
    (henter : e.enter run = some (e', run', w)) (h : files.Underway e' run' w rounds)
    (hheld : files.HeldBy source (e'.needed run'.query) run'.key.order) (hid : id < e'.runs.size)
    (houtcome : files.answer e' run' = outcome) (hrounds : rounds ≠ [])

/-- A run whose attempt waits comes to its outcome in the rounds that are left. -/
theorem Underway.comes_setRun (h : files.Underway e run w rounds) (hrounds : rounds ≠ [])
    (hheld : files.HeldBy source (e.needed run.query) run.key.order) (hid : id < e.runs.size) :
    files.Comes source (files.answer e run) id rounds
      (e.setRun id { run with stage := .loading w }) := by
  have hsize : (e.setRun id { run with stage := .loading w }).runs.size = e.runs.size :=
    Array.size_setIfInBounds
  exact .waits (Array.getElem?_setIfInBounds_self_of_lt hid) rfl ⟨h.serves, h.sound, h.ends⟩ hheld
    (hsize ▸ hid) rfl hrounds

/-- Carrying a run on in the first of these rounds leaves the others, or comes to its outcome. -/
theorem Underway.comes_carryOn {n : Nat} {e : Engine} {run : Run} {w : Waiting}
    (h : files.Underway e run w (part :: rounds))
    (hheld : files.HeldBy source (e.needed run.query) run.key.order) (hpart : part.PartOf source)
    (hid : id < e.runs.size) :
    files.Comes source (files.answer e run) id rounds (carryOn part id n e run w) := by
  obtain ⟨e', hleaves, ⟨hattempt, hended⟩ | ⟨w', hattempt, hrounds, hunderway⟩⟩ :=
    h.attempt hheld hpart
  all_goals
    have hid' : id < e'.runs.size := hleaves.runs_eq ▸ hid
    have hneeded := needed_congr hleaves.settings_eq run.query
    rw [carryOn_eq, hattempt]
  · cases hanswer : files.answer e run with
    | ok result => exact .ended (e'.result?_endRun hid' run _)
    | error error =>
      cases n with
      | zero => exact .ended (e'.result?_endRun hid' run _)
      | succ n =>
        -- the next attempt has nothing to wait for, and comes to the same error
        let next : Run := { run with attempt := run.attempt + 1 }
        have hserves : files.Serves ((e'.noteRetry run error).needed next.query) next.key.order
            (e'.noteRetry run error).store := hleaves.serves.of_contents_eq rfl
        have hheld' : files.HeldBy source (e'.needed run.query) run.key.order := hneeded ▸ hheld
        have hbegin : files.Underway _ next _ (part :: rounds) :=
          hserves.beginAttempt hheld' fun target htarget => .inl (hended target htarget)
        have hnext : files.Comes source (files.answer e' run) id rounds
            (afterFailure part id (n + 1) e' run error) := hbegin.comes_carryOn hheld' hpart hid'
        rwa [hleaves.answer_eq, hanswer] at hnext
  · rw [← hleaves.answer_eq]
    exact hunderway.comes_setRun hrounds (hneeded ▸ hheld) hid'
termination_by n

/-- Polling a run in the first of these rounds leaves the others. -/
theorem Comes.poll (h : files.Comes source outcome id (part :: rounds) e)
    (hpart : part.PartOf source) : files.Comes source outcome id rounds (e.poll part id) := by
  cases h with
  | ended hresult =>
    rw [poll_of_result hresult]
    exact .ended hresult
  | waits hrun henter h hheld hid houtcome =>
    rw [poll_eq, hrun, Option.bind_some, henter]
    subst houtcome
    exact h.comes_carryOn hheld hpart hid

theorem Comes.result?_of_nil (h : files.Comes source outcome id [] e) :
    e.result? id = some outcome := by
  cases h with
  | ended hresult => exact hresult
  | waits _ _ _ _ _ _ hrounds => exact absurd rfl hrounds

theorem Comes.result?_foldl (hparts : ∀ part ∈ rounds, part.PartOf source)
    (h : files.Comes source outcome id rounds e) :
    (rounds.foldl (fun e source => e.poll source id) e).result? id = some outcome := by
  induction rounds generalizing e with
  | nil => exact h.result?_of_nil
  | cons part rounds ih =>
    obtain ⟨hpart, hparts⟩ := List.forall_mem_cons.1 hparts
    exact ih hparts (h.poll hpart)

/-- Rounds over the whole source bring a run to its outcome. -/
theorem Comes.result?_pollUntilDone {n : Nat}
    (h : files.Comes source outcome id (List.replicate n source) e) :
    (Engine.pollUntilDone source n e [id]).result? id = some outcome := by
  induction n generalizing e with
  | zero => exact h.result?_of_nil
  | succ n ih =>
    rw [Engine.pollUntilDone]
    cases hresult : e.result? id with
    | none => simpa [hresult, pollRound] using ih (h.poll source.partOf_self)
    | some r =>
      have hr : r = outcome := by
        cases h with
        | ended hresult' => exact Option.some.inj (hresult.symm.trans hresult')
        | waits hrun henter =>
          rw [Engine.result?, hrun, Option.bind_some] at hresult
          rw [e.enter_of_ended (by rw [hresult]; exact Option.some_ne_none r)] at henter
          cases henter
      simp [hresult, hr]

theorem HeldBy.answeredIn {needed : List Property} {order : SortOrder} {target : LoadTarget}
    (h : files.HeldBy source needed order) (htarget : target.AskedFor needed order)
    (hsource : source ∈ rounds) : target.AnsweredIn rounds := by
  intro file hfile
  refine ⟨source, hsource, ?_⟩
  cases target with
  | column p =>
    obtain ⟨bytes, -, hbytes, -⟩ := h.file htarget
    obtain rfl : p.file = file := Option.some.inj hfile
    simp [hbytes]
  | sorter other =>
    obtain rfl : other = order := htarget
    obtain ⟨bytes, -, hbytes, -⟩ := h.index hfile
    simp [hbytes]

section Fresh

variable {order : SortOrder} {q : Query}

/-- A request for the files comes to what its condition comes to on the columns that its properties
load, if what is asked for is answered in the rounds after the first. -/
theorem comes_request (refetchInterval : Nat) (subsets : SubsetStore) (settings : EngineSettings)
    (ascending : Bool) :
    let e : Engine := { store := { refetchInterval }, subsets, settings }
    files.HeldBy source (e.needed q) order → rounds ≠ [] →
    (∀ target : LoadTarget, target.AskedFor (e.needed q) order → target.AnsweredIn rounds.tail) →
    files.Comes source (outcomeOn (files.catalog (e.needed q)) subsets settings
      ⟨q.digest, order, ascending⟩ files.sorter q.condition) 0 rounds
        (e.request q order ascending).1 := by
  intro e hheld hrounds hanswered
  let run : Run := { query := q, key := ⟨q.digest, order, ascending⟩ }
  let e' : Engine := (e.request q order ascending).1
  have hrun : e'.runs[0]? = some run := rfl
  have hserves : files.Serves ((e'.write run.scope.start).needed run.query) order
      (e'.write run.scope.start).store :=
    (serves_start files _ order refetchInterval).of_contents_eq rfl
  let run' : Run := { run with started := (e'.write run.scope.start).store.clock }
  have hbegin : files.Underway ((e'.write run.scope.start).beginAttempt run').1 run'
      ((e'.write run.scope.start).beginAttempt run').2 rounds :=
    hserves.beginAttempt hheld fun target htarget => .inr (hanswered target htarget)
  exact .waits hrun rfl hbegin hheld Nat.one_pos rfl hrounds

/-- When all that is asked for has been answered, the request has come to that. -/
theorem result?_executeOver (refetchInterval : Nat) (subsets : SubsetStore)
    (settings : EngineSettings) (ascending : Bool) :
    let e : Engine := { store := { refetchInterval }, subsets, settings }
    let r := e.executeOver rounds ⟨q, order, ascending⟩
    files.HeldBy source (e.needed q) order → (∀ part ∈ rounds, part.PartOf source) → rounds ≠ [] →
    (∀ target : LoadTarget, target.AskedFor (e.needed q) order → target.AnsweredIn rounds.tail) →
    r.1.result? r.2 = some (outcomeOn (files.catalog (e.needed q)) subsets settings
      ⟨q.digest, order, ascending⟩ files.sorter q.condition) := by
  intro e r hheld hparts hrounds hanswered
  have hcomes := comes_request refetchInterval subsets settings ascending hheld hrounds hanswered
  exact hcomes.result?_foldl hparts

/-- The request comes to nothing else, whether all has been answered or not. -/
theorem eq_of_result?_executeOver (refetchInterval : Nat) (subsets : SubsetStore)
    (settings : EngineSettings) (ascending : Bool) :
    let e : Engine := { store := { refetchInterval }, subsets, settings }
    let r := e.executeOver rounds ⟨q, order, ascending⟩
    files.HeldBy source (e.needed q) order → (∀ part ∈ rounds, part.PartOf source) →
    r.1.result? r.2 = some outcome →
    outcome = outcomeOn (files.catalog (e.needed q)) subsets settings
      ⟨q.digest, order, ascending⟩ files.sorter q.condition := by
  intro e r hheld hparts hresult
  -- in two more rounds over the whole source all is answered, and nothing changes
  have hparts' : ∀ part ∈ rounds ++ [source, source], part.PartOf source := by
    intro part hpart
    rcases List.mem_append.1 hpart with hpart | hpart
    · exact hparts part hpart
    · obtain rfl : part = source := by simpa using hpart
      exact part.partOf_self
  have htail : source ∈ (rounds ++ [source, source]).tail := by
    cases rounds <;> simp
  have hrounds : rounds ++ [source, source] ≠ [] := by simp
  have hcomes := comes_request refetchInterval subsets settings ascending hheld hrounds
    fun target htarget => hheld.answeredIn htarget htail
  have hmore := hcomes.result?_foldl hparts'
  rw [List.foldl_append] at hmore
  exact Option.some.inj ((result?_foldl_poll hresult _).symm.trans hmore)

/-- Executed over the whole source, a request comes to what its condition comes to on the columns
that its properties load. -/
theorem result?_execute (refetchInterval : Nat) (subsets : SubsetStore) (settings : EngineSettings)
    (ascending : Bool) :
    let e : Engine := { store := { refetchInterval }, subsets, settings }
    let r := e.execute source ⟨q, order, ascending⟩
    files.HeldBy source (e.needed q) order →
    r.1.result? r.2 = some (outcomeOn (files.catalog (e.needed q)) subsets settings
      ⟨q.digest, order, ascending⟩ files.sorter q.condition) := by
  intro e r hheld
  let e' : Engine := (e.request q order ascending).1
  have hcomes : files.Comes source _ 0 (List.replicate (e'.rounds + 1) source) e' :=
    comes_request refetchInterval subsets settings ascending hheld nofun fun target htarget =>
      hheld.answeredIn htarget (by simp [Engine.rounds])
  have hexecute : r = (Engine.pollUntilDone source (e'.rounds + 1) e' [0], 0) := rfl
  rw [hexecute]
  dsimp only
  rw [hcomes.result?_pollUntilDone]

end Fresh

end FileSet

/-- Over a source that has all files, every request comes to what its condition comes to on the columns
that its properties load. -/
theorem Dataset.result?_execute (d : Dataset) {order : SortOrder} {x : Sorter}
    (hsorts : d.Sorts order x) (refetchInterval : Nat) (subsets : SubsetStore)
    (settings : EngineSettings) (q : Query) (ascending : Bool) :
    let e : Engine := { store := { refetchInterval }, subsets, settings }
    let r := e.execute d.source ⟨q, order, ascending⟩
    r.1.result? r.2 = some (Engine.outcomeOn (d.catalog (e.needed q)) subsets settings
      ⟨q.digest, order, ascending⟩ x q.condition) := by
  intro e r
  have hheld : (d.files x).HeldBy d.source (e.needed q) order := d.heldBy hsorts (e.needed q)
  have hresult := FileSet.result?_execute refetchInterval subsets settings ascending hheld
  exact hresult

end CardSearch
