import CardSearch.Proofs.Engine.Attempts

/-!
# Searches that share a store

Any number of searches and preloads share one store. Their steps come in any order, the source
answers each of them as it likes, and the store is cleared in between. Whatever they do, the store
stays valid, and a search that waits holds the loads that it waits for since its attempt began.
-/

namespace CardSearch

open CardStore

/-- A step that someone takes. -/
inductive SessionStep
  | request (query : Query) (order : SortOrder) (ascending : Bool)
  | poll (source : Source) (id : RunId)
  | preload (properties : List Property) (order : SortOrder)
  | pollPreload (source : Source) (i : Nat)
  | load (p : Property)
  | loadSorter (order : SortOrder)
  | pollLoad (source : Source) (id : LoadId)
  | createSubset (subset : Subset)
  | updateSubset (subset : Subset)
  | wait (time : Nat)

def SessionStep.source : SessionStep → Source
  | poll source _ | pollPreload source _ | pollLoad source _ => source
  | _ => fun _ => none

def Run.begun? (run : Run) : Option Nat :=
  match run.stage with
  | .created => none
  | _ => some run.attempt

/-- An engine and the preloads that are waited for. For each run it is noted in which generation of
the store its last attempt began, and for each load what its fetch gave. -/
structure Session where
  engine : Engine
  preloads : List Waiting := []
  began : RunId → Nat := fun _ => 0
  fetched : Fetched := fun _ => none

namespace Session

/-- Nothing has happened yet. -/
def start (refetchInterval : Nat) (subsets : SubsetStore) (settings : EngineSettings) : Session where
  engine := { store := { refetchInterval }, subsets, settings }

def act (s : Session) : SessionStep → Engine × List Waiting
  | .request q order ascending => ((s.engine.request q order ascending).1, s.preloads)
  | .poll source id => (s.engine.poll source id, s.preloads)
  | .preload properties order =>
    let needed := PropertySet.ofList (properties ++ s.engine.settings.display)
    let (store, waiting) := Waiting.begin s.engine.store needed.toList order
    ({ s.engine with store }, s.preloads ++ [waiting])
  | .pollPreload source i =>
    match s.preloads[i]? with
    | none => (s.engine, s.preloads)
    | some waiting =>
      match waiting.poll source s.engine.store with
      | (store, .pending waiting) => ({ s.engine with store }, s.preloads.set i waiting)
      | (store, _) => ({ s.engine with store }, s.preloads.eraseIdx i)
  | .load p => ({ s.engine with store := (s.engine.store.requestProperty p).1 }, s.preloads)
  | .loadSorter order =>
    ({ s.engine with store := (s.engine.store.requestSorter order).1 }, s.preloads)
  | .pollLoad source id =>
    ({ s.engine with store := s.engine.store.poll source id }, s.preloads)
  | .createSubset subset => ((s.engine.createSubset subset).1, s.preloads)
  | .updateSubset subset => (s.engine.updateSubset subset, s.preloads)
  | .wait time =>
    let store := { s.engine.store with clock := s.engine.store.clock + time }
    ({ s.engine with store }, s.preloads)

def begun? (e : Engine) (id : RunId) : Option Nat := e.runs[id]?.bind Run.begun?

/-- One step. An attempt that begins in it does so after any clearing in it, which would have ended
the attempt. -/
def step (s : Session) (action : SessionStep) : Session :=
  let (engine, preloads) := s.act action
  { engine, preloads
    began := fun id =>
      if begun? engine id = begun? s.engine id then s.began id else engine.store.generation
    fetched := Contents.recorded action.source s.engine.store.contents engine.store.contents
      s.fetched }

def run (s : Session) (actions : List SessionStep) : Session := actions.foldl step s

/-- What holds of a session at all times: the store is valid, and a run that waits holds the loads
that it waits for since its attempt began. -/
structure Valid (s : Session) : Prop where
  store : s.engine.store.contents.Valid s.fetched
  loading {id : RunId} {run : Run} {w : Waiting} : s.engine.runs[id]? = some run →
    run.stage = .loading w →
    w.Sound s.engine.store (s.engine.needed run.query) run.key.order (s.began id)

theorem valid_start (refetchInterval : Nat) (subsets : SubsetStore) (settings : EngineSettings) :
    (start refetchInterval subsets settings).Valid where
  store :=
    ⟨⟨nofun, nofun, nofun, nofun⟩, nofun, nofun, nofun⟩
  loading h := by cases h

end Session

private theorem Run.begun?_eq {run : Run} (h : run.stage ≠ .created) :
    run.begun? = some run.attempt := by
  unfold begun?
  split
  · next hstage => exact absurd hstage h
  · rfl

theorem Run.stage_of_result {run : Run} {r : Except ExecutionError QueryResult}
    (h : run.result? = some r) : run.stage = .finished r := by
  unfold result? at h
  split at h
  · next hstage => exact hstage.trans (congrArg RunStage.finished (Option.some.inj h))
  · cases h

namespace Engine

variable {e e' : Engine} {source : Source} {id : RunId} {fetched : Fetched} {g : Nat} {run : Run}

structure PollsRun (source : Source) (id : RunId) (e : Engine) (run : Run) (g : Nat) (e' : Engine)
    (run' : Run) : Prop where
  reaches : Reaches source e.store e'.store
  settings_eq : e'.settings = e.settings
  runs_eq : e'.runs = e.runs.setIfInBounds id run'
  attempted : (∃ error, run'.stage = .finished (.error error)) ∨
    e'.Attempted run' (if run'.begun? = run.begun? then g else e'.store.generation)

/-- Polling brings a run on in the attempt that it is at, or in a later one. -/
theorem pollsRun_poll (source : Source) (hvalid : e.store.contents.Valid fetched)
    (hrun : e.runs[id]? = some run) (hended : run.result? = none)
    (hsound : ∀ w, run.stage = .loading w →
      w.Sound e.store (e.needed run.query) run.key.order g) :
    ∃ run', PollsRun source id e run g (e.poll source id) run' := by
  unfold poll
  rw [hrun]
  dsimp only
  split
  · next r hstage => simp [Run.result?, hstage] at hended
  · next w hstage =>
    obtain ⟨run', h⟩ := carries_carryOn source id (e.settings.attempts - run.attempt) hvalid
      (hsound w hstage)
    refine ⟨run', h.reaches, h.settings_eq, h.runs_eq,
      h.attempted.imp_right fun ⟨g', hattempted, hcreated, hg'⟩ => ?_⟩
    -- the run is at the same attempt as before, or at one that began in this step
    rw [Run.begun?_eq hcreated, Run.begun?_eq (by simp [hstage])]
    rcases hg' with ⟨hsame, rfl, -⟩ | ⟨hlater, rfl⟩
    · rwa [if_pos (congrArg some hsame)]
    · rwa [if_neg fun heq => Nat.ne_of_gt hlater (Option.some.inj heq)]
  · next hstage =>
    have hsame : (e.write run.scope.start).store.contents = e.store.contents := rfl
    have hstart : Reaches source e.store (e.write run.scope.start).store := .reports hsame .refl
    obtain ⟨hbegin, hsettings, hruns, hsound'⟩ := beginAttempt_spec source (hstart.valid hvalid)
      { run with started := (e.write run.scope.start).store.clock }
    have hreach := hstart.trans hbegin
    obtain ⟨run', h⟩ := carries_carryOn source id (e.settings.attempts - run.attempt)
      (hreach.valid hvalid) hsound'
    refine ⟨run', hreach.trans h.reaches, h.settings_eq.trans hsettings, ?_,
      h.attempted.imp_right fun ⟨g', hattempted, hcreated, hg'⟩ => ?_⟩
    · rw [h.runs_eq, hruns]
      rfl
    · have hnone : run.begun? = none := by simp [Run.begun?, hstage]
      rw [Run.begun?_eq hcreated, hnone, if_neg nofun]
      rcases hg' with ⟨-, rfl, hgen⟩ | ⟨-, rfl⟩
      · rwa [hgen]
      · exact hattempted

theorem poll_eq_self (source : Source) (h : ∀ run, e.runs[id]? = some run → run.result? ≠ none) :
    e.poll source id = e := by
  unfold poll
  split
  · rfl
  · next run hrun =>
    have hended := h run hrun
    dsimp only
    split
    · rfl
    · next hstage => simp [Run.result?, hstage] at hended
    · next hstage => simp [Run.result?, hstage] at hended

/-- Asking for a run adds one that has not begun, or none. -/
theorem request_spec (e : Engine) (q : Query) (order : SortOrder) (ascending : Bool) :
    (e.request q order ascending).1.store.contents = e.store.contents ∧
      (e.request q order ascending).1.settings = e.settings ∧
      ((e.request q order ascending).1.runs = e.runs ∨
        ∃ run, run.stage = .created ∧ (e.request q order ascending).1.runs = e.runs.push run) := by
  unfold request
  dsimp only
  split
  · exact ⟨rfl, rfl, .inl rfl⟩
  · exact ⟨rfl, rfl, .inr ⟨_, rfl, rfl⟩⟩

theorem createSubset_spec (e : Engine) (subset : Subset) :
    (e.createSubset subset).1.store.contents = e.store.contents ∧
      (e.createSubset subset).1.settings = e.settings ∧
      (e.createSubset subset).1.runs = e.runs := by
  unfold createSubset
  split <;> exact ⟨rfl, rfl, rfl⟩

end Engine

namespace Session

variable {s : Session} {id : RunId}

/-- What a step of others does to a run: nothing but to the store under it. -/
theorem Valid.step_of_runs (h : s.Valid) {action : SessionStep}
    (hreach : Reaches action.source s.engine.store (s.step action).engine.store)
    (hsettings : (s.step action).engine.settings = s.engine.settings)
    (hruns : ∀ (id : RunId) (run : Run), (s.step action).engine.runs[id]? = some run →
      s.engine.runs[id]? = some run ∨ (∀ w, run.stage = .loading w →
        w.Sound (s.step action).engine.store ((s.step action).engine.needed run.query) run.key.order
          ((s.step action).began id))) : (s.step action).Valid where
  store := hreach.valid h.store
  loading {id run w} hrun hstage := by
    rcases hruns id run hrun with hold | hnew
    · have hsame : begun? (s.step action).engine id = begun? s.engine id := by
        rw [begun?, begun?, hrun, hold]
      have hbegan : (s.step action).began id = s.began id := if_pos hsame
      have hneeded := Engine.needed_congr hsettings run.query
      rw [hbegan, hneeded]
      exact (h.loading hold hstage).reaches h.store hreach
    · exact hnew w hstage

/-- Where a step polls no run, the runs are as they were, but for new ones. -/
theorem Valid.step_of_others (h : s.Valid) {action : SessionStep}
    (hreach : Reaches action.source s.engine.store (s.step action).engine.store)
    (hsettings : (s.step action).engine.settings = s.engine.settings)
    (hruns : (s.step action).engine.runs = s.engine.runs ∨ ∃ run, run.stage = .created ∧
      (s.step action).engine.runs = s.engine.runs.push run) : (s.step action).Valid := by
  refine h.step_of_runs hreach hsettings fun id run hrun => ?_
  rcases hruns with hsame | ⟨new, hcreated, hpush⟩
  · exact .inl (hsame ▸ hrun)
  · rw [hpush, Array.getElem?_push] at hrun
    split at hrun
    · cases hrun
      exact .inr fun w hw => by rw [hcreated] at hw; cases hw
    · exact .inl hrun

theorem Valid.pollsRun (h : s.Valid) (source : Source) {run : Run}
    (hrun : s.engine.runs[id]? = some run) (hended : run.result? = none) :
    ∃ run', (s.step (.poll source id)).engine.runs[id]? = some run' ∧
      Engine.PollsRun source id s.engine run (s.began id) (s.step (.poll source id)).engine run' := by
  obtain ⟨run', hpolls⟩ := Engine.pollsRun_poll source h.store hrun hended fun w => h.loading hrun
  refine ⟨run', ?_, hpolls⟩
  have hid := (Array.getElem?_eq_some_iff.1 hrun).1
  change (s.engine.poll source id).runs[id]? = some run'
  rw [hpolls.runs_eq, Array.getElem?_setIfInBounds_self_of_lt hid]

private theorem began_step (action : SessionStep) (id : RunId) : (s.step action).began id =
    if begun? (s.step action).engine id = begun? s.engine id then s.began id
    else (s.step action).engine.store.generation := rfl

/-- A preload that is polled does nothing but to the store. -/
theorem engine_pollPreload (s : Session) (source : Source) (i : Nat) :
    (s.step (.pollPreload source i)).engine = s.engine ∨
      ∃ w : Waiting, (s.step (.pollPreload source i)).engine =
        { s.engine with store := (w.poll source s.engine.store).1 } := by
  change (s.act (.pollPreload source i)).1 = _ ∨ ∃ w : Waiting, (s.act (.pollPreload source i)).1 = _
  simp only [act]
  cases s.preloads[i]? with
  | none => exact .inl rfl
  | some w =>
    refine .inr ⟨w, ?_⟩
    dsimp only
    generalize w.poll source s.engine.store = r
    obtain ⟨store, _ | _ | _⟩ := r <;> rfl

theorem began_poll {source : Source} {run run' : Run} (hrun : s.engine.runs[id]? = some run)
    (hrun' : (s.step (.poll source id)).engine.runs[id]? = some run') :
    (s.step (.poll source id)).began id = if run'.begun? = run.begun? then s.began id
      else (s.step (.poll source id)).engine.store.generation := by
  rw [began_step, begun?, begun?, hrun, hrun']
  rfl

/-- Whatever step is taken, the store takes steps of its own. -/
theorem Valid.reaches_step (h : s.Valid) (action : SessionStep) :
    Reaches action.source s.engine.store (s.step action).engine.store := by
  cases action with
  | request q order ascending => exact .reports (s.engine.request_spec q order ascending).1 .refl
  | poll source id =>
    by_cases hpending : ∃ run, s.engine.runs[id]? = some run ∧ run.result? = none
    · obtain ⟨run, hrun, hended⟩ := hpending
      obtain ⟨_, _, hpolls⟩ := h.pollsRun source hrun hended
      exact hpolls.reaches
    · have hsame : (s.step (.poll source id)).engine = s.engine :=
        Engine.poll_eq_self source fun run hrun hended => hpending ⟨run, hrun, hended⟩
      exact .reports (congrArg (·.store.contents) hsame) .refl
  | preload properties order => exact (Waiting.sound_begin _ h.store _ order).1
  | pollPreload source i =>
    rcases engine_pollPreload s source i with hsame | ⟨w, hw⟩
    · exact .reports (congrArg (·.store.contents) hsame) .refl
    · rw [hw]
      exact w.reaches_poll source s.engine.store
  | load p => exact .property p .refl
  | loadSorter order => exact .sorter order .refl
  | pollLoad source id => exact .poll id .refl
  | createSubset subset => exact .reports (s.engine.createSubset_spec subset).1 .refl
  | updateSubset subset => exact .refl
  | wait time =>
    have hsame : (s.step (.wait time)).engine.store.contents = s.engine.store.contents := rfl
    exact .reports hsame .refl

theorem Valid.step (h : s.Valid) (action : SessionStep) : (s.step action).Valid := by
  have hreach := h.reaches_step action
  cases action with
  | request q order ascending =>
    obtain ⟨-, hsettings, hruns⟩ := s.engine.request_spec q order ascending
    exact h.step_of_others hreach hsettings hruns
  | poll source id =>
    by_cases hpending : ∃ run, s.engine.runs[id]? = some run ∧ run.result? = none
    · obtain ⟨run, hrun, hended⟩ := hpending
      obtain ⟨run', hrun', hpolls⟩ := h.pollsRun source hrun hended
      refine h.step_of_runs hreach hpolls.settings_eq fun j other hother => ?_
      by_cases hj : j = id
      · -- the run that was polled holds its loads anew, all others only see the store change
        subst hj
        cases hrun'.symm.trans hother
        refine .inr fun w hw => ?_
        rcases hpolls.attempted with ⟨error, herror⟩ | hattempted
        · rw [hw] at herror
          cases herror
        · rw [began_poll hrun hrun']
          simpa only [Engine.Attempted, hw] using hattempted
      · rw [hpolls.runs_eq, Array.getElem?_setIfInBounds_ne (Ne.symm hj)] at hother
        exact .inl hother
    · have hsame : (s.step (.poll source id)).engine = s.engine :=
        Engine.poll_eq_self source fun run hrun hended => hpending ⟨run, hrun, hended⟩
      exact h.step_of_others hreach (congrArg Engine.settings hsame)
        (.inl (congrArg Engine.runs hsame))
  | pollPreload source i =>
    rcases engine_pollPreload s source i with hsame | ⟨w, hw⟩
    · exact h.step_of_others hreach (congrArg Engine.settings hsame)
        (.inl (congrArg Engine.runs hsame))
    · exact h.step_of_others hreach (by rw [hw]) (.inl (by rw [hw]))
  | createSubset subset =>
    obtain ⟨-, hsettings, hruns⟩ := s.engine.createSubset_spec subset
    exact h.step_of_others hreach hsettings (.inl hruns)
  | preload | load | loadSorter | pollLoad | updateSubset | wait =>
    exact h.step_of_others hreach rfl (.inl rfl)

theorem Valid.run (h : s.Valid) (actions : List SessionStep) : (s.run actions).Valid := by
  induction actions generalizing s with
  | nil => exact h
  | cons action actions ih => exact ih (h.step action)

end Session

end CardSearch
