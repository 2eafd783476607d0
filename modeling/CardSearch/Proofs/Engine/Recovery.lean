import CardSearch.Proofs.Engine.Lockstep
import CardSearch.Proofs.Engine.Progress
import CardSearch.Proofs.Engine.Refinement
import CardSearch.Proofs.Store.Replacement

/-!
# Recovering from files that were replaced

A search over a store of an earlier snapshot fails at the first file of the new one that comes. The
store is cleared then, and the attempt that follows keeps step with the first one on a store that was
never used: what the earlier snapshot was, and how far its loads had come, does not matter any more.
-/

namespace CardSearch

open CardStore

namespace Engine

variable {e : Engine} {id : RunId} {run : Run} {x : Sorter}

/-- Where all that it needs is loaded, a run ends when it is first polled, and not for want of a file.
It has nothing fetched. -/
theorem poll_of_hasAll (source : Source) (hrun : e.runs[id]? = some run)
    (hstage : run.stage = .created) (hc : e.store.Coherent)
    (hall : e.store.HasAll (e.needed run.query) run.key.order x) :
    ∃ outcome, (e.poll source id).result? id = some outcome ∧
      (∀ error, outcome ≠ .error (.load error)) ∧
      (e.poll source id).store.fetches = e.store.fetches := by
  let run' : Run := { run with started := e.store.clock }
  let e₁ : Engine := e.write run.scope.start
  have hc₁ : e₁.store.Coherent := hc.of_contents_eq rfl
  have hall₁ : e₁.store.HasAll (e₁.needed run'.query) run'.key.order x := hall.of_contents_eq rfl
  obtain ⟨s, w, hbegin, hall', hc', -, hfetches, hready⟩ := hall₁.begin hc₁
  have hbegin' : e₁.beginAttempt run' = ({ e₁ with store := s }, w) := by
    rw [beginAttempt, hbegin]
  have hid : id < e₁.runs.size := (Array.getElem?_eq_some_iff.1 hrun).1
  rw [poll_of_created source hrun hstage, hbegin']
  obtain ⟨hresult, hfetched⟩ := result?_carryOn_of_ready (e := { e₁ with store := s })
    (n := e.settings.attempts - run.attempt) (hready source) hc' hall' hid
  exact ⟨_, hresult, fun error => outcomeOn_ne_load _ _ _ _ _ _ error, hfetched.trans hfetches⟩

/-- Where all that it needs is loaded, a request has nothing fetched, and meets no error of a load. -/
theorem executeOver_of_complete {q : Query} {order : SortOrder} {ascending : Bool}
    (hflight : e.inFlight.lookup ⟨q.digest, order, ascending⟩ = none) (hc : e.store.Coherent)
    (hcomplete : e.store.Complete (e.needed q) order) (rounds : List Source) :
    (∀ error, outcomeOf (e.executeOver rounds ⟨q, order, ascending⟩) ≠
        some (.error (.load error))) ∧
      (e.executeOver rounds ⟨q, order, ascending⟩).1.store.fetches = e.store.fetches := by
  have hrun := e.getElem?_launch (asked q order ascending)
  obtain ⟨x, hall⟩ := hc.exists_hasAll_iff.2 hcomplete
  rw [executeOver_of_lookup hflight, outcomeOf]
  cases rounds with
  | nil =>
    refine ⟨fun error herror => ?_, rfl⟩
    rw [List.foldl_nil, Engine.result?, hrun] at herror
    cases herror
  | cons source rounds =>
    obtain ⟨outcome, hresult, hload, hfetches⟩ := poll_of_hasAll source hrun rfl hc hall
    rw [List.foldl_cons, foldl_poll_of_result hresult]
    refine ⟨fun error herror => hload error ?_, hfetches⟩
    exact Option.some.inj (hresult.symm.trans herror)

end Engine

namespace FileSet

open Engine

variable {files : FileSet} {source part : Source} {needed : List Property} {order : SortOrder}
  {e e₁ e₂ f : Engine} {i j : RunId} {run run₁ run₂ first : Run} {w : Waiting}

/-- Over stores without files, two runs of one query begin to wait for the same. -/
theorem Blank.abreast (h₁ : files.Blank e₁.store) (h₂ : files.Blank e₂.store)
    (hquery : run₂.query = run₁.query) (hkey : run₂.key = run₁.key)
    (hsubsets : e₂.subsets = e₁.subsets) (hsettings : e₂.settings = e₁.settings) :
    files.Abreast (e₁.beginAttempt run₁).1 (e₂.beginAttempt run₂).1 run₁ run₂
      (e₁.beginAttempt run₁).2 (e₂.beginAttempt run₂).2 := by
  have hneeded : e₂.needed run₂.query = e₁.needed run₁.query := by
    rw [hquery, needed_congr hsettings]
  have hbegin : e₂.beginAttempt run₂ =
      ({ e₂ with store := (Waiting.begin e₂.store (e₁.needed run₁.query) run₁.key.order).1 },
        (Waiting.begin e₂.store (e₁.needed run₁.query) run₁.key.order).2) := by
    rw [beginAttempt, hneeded, hkey]
  obtain ⟨fetched₁, hvalid₁⟩ := h₁.coherent.valid
  obtain ⟨fetched₂, hvalid₂⟩ := h₂.coherent.valid
  obtain ⟨-, hsound₁⟩ := Waiting.sound_begin (fun _ => none) hvalid₁ (e₁.needed run₁.query)
    run₁.key.order
  obtain ⟨-, hsound₂⟩ := Waiting.sound_begin (fun _ => none) hvalid₂ (e₁.needed run₁.query)
    run₁.key.order
  obtain ⟨hstores, hwaiting⟩ := (h₁.alike h₂ (e₁.needed run₁.query) run₁.key.order).begin
    (PropertySet.pairwise_toList _)
  rw [hbegin]
  exact ⟨hquery, hkey, hsubsets, hsettings, hstores, hwaiting, hsound₁, hsound₂⟩

/-- A run waits for loads that go on in a store of another snapshot, and may make one more attempt.
Another run of its query has been asked for over a store in which nothing is loaded. -/
structure Behind (files : FileSet) (e f : Engine) (run first : Run) (w : Waiting) : Prop where
  query_eq : first.query = run.query
  key_eq : first.key = run.key
  subsets_eq : f.subsets = e.subsets
  settings_eq : f.settings = e.settings
  lags : files.Lags (e.needed run.query) run.key.order e.store
  lasts : w.Lasts e.store
  again : run.attempt < e.settings.attempts

inductive Trails (files : FileSet) (source : Source) (i : RunId) (f : Engine) (first : Run)
    (e : Engine) : Prop
  | intro {run run' : Run} {e' : Engine} {w : Waiting} (hrun : e.runs[i]? = some run)
    (henter : e.enter run = some (e', run', w)) (h : files.Behind e' f run' first w)
    (hfound : files.FoundIn source (e'.needed run'.query) run'.key.order) (hi : i < e'.runs.size)

private theorem Trails.result?_eq_none (h : files.Trails source i f first e) :
    e.result? i = none := by
  obtain ⟨hrun, henter, -⟩ := h
  rw [Engine.result?, hrun, Option.bind_some]
  refine Classical.byContradiction fun hended => ?_
  cases (e.enter_of_ended hended).symm.trans henter

section Fresh

variable (hfirst : f.runs[j]? = some first) (hcreated : first.stage = .created)
  (hblank : files.Blank f.store)
include hfirst hcreated hblank

/-- Carrying on a run that is behind leaves it so, or has it begin anew together with a run that is
polled for the first time. -/
theorem Behind.trails_or_together (h : files.Behind e f run first w)
    (hfound : files.FoundIn source (e.needed run.query) run.key.order) (hpart : part.PartOf source)
    (hi : i < e.runs.size) :
    files.Trails source i f first
        (carryOn part i (e.settings.attempts - run.attempt) e run w) ∨
      files.Together source i j (carryOn part i (e.settings.attempts - run.attempt) e run w)
        (f.poll part j) := by
  rcases h.lags.poll_waiting hfound hpart h.lasts with
    ⟨s, error, hpoll, hcleared⟩ | ⟨s, w', hpoll, hlags, hlasts⟩
  · obtain ⟨n, hn⟩ : ∃ n, e.settings.attempts - run.attempt = n + 1 :=
      Nat.exists_eq_add_one.2 (Nat.sub_pos_of_lt h.again)
    have hj := (Array.getElem?_eq_some_iff.1 hfirst).1
    let next : Run := { run with attempt := run.attempt + 1 }
    let first' : Run := { first with started := f.store.clock }
    let e₁ : Engine := ({ e with store := s } : Engine).noteRetry run (.load error)
    let f₁ : Engine := f.write first.scope.start
    have hretry : carryOn part i (n + 1) e run w =
        carryOn part i n (e₁.beginAttempt next).1 next (e₁.beginAttempt next).2 := by
      rw [carryOn_eq, attempt, hpoll]
      rfl
    have habreast : files.Abreast (e₁.beginAttempt next).1 (f₁.beginAttempt first').1 next first'
        (e₁.beginAttempt next).2 (f₁.beginAttempt first').2 :=
      Blank.abreast (hcleared.of_contents_eq rfl) (hblank.of_contents_eq rfl) h.query_eq h.key_eq
        h.subsets_eq h.settings_eq
    rw [hn, hretry, poll_of_created part hfirst hcreated]
    exact .inr (habreast.carryOn hfound hpart hi hj _ _)
  · rw [carryOn_of_pending hpoll]
    have hsize : (({ e with store := s } : Engine).setRun i { run with stage := .loading w' }).runs.size
        = e.runs.size := Array.size_setIfInBounds
    exact .inl (.intro (Array.getElem?_setIfInBounds_self_of_lt hi) rfl
      ⟨h.query_eq, h.key_eq, h.subsets_eq, h.settings_eq, hlags, hlasts, h.again⟩ hfound
      (hsize ▸ hi))

/-- Polled over a part of the files, a run that is behind stays so, or begins anew together with one
that is polled for the first time. -/
theorem Trails.poll (h : files.Trails source i f first e) (hpart : part.PartOf source) :
    files.Trails source i f first (e.poll part i) ∨
      files.Together source i j (e.poll part i) (f.poll part j) := by
  obtain ⟨hrun, henter, hbehind, hfound, hi⟩ := h
  rw [poll_eq part e, hrun, Option.bind_some, henter]
  exact hbehind.trails_or_together hfirst hcreated hblank hfound hpart hi

/-- After any rounds over parts of the files a run that was behind has come to what another one comes
to in the last of these rounds, from when the files were found to be replaced. -/
theorem Trails.exists_rest (h : files.Trails source i f first e) {rounds : List Source}
    (hparts : ∀ part ∈ rounds, part.PartOf source) :
    ∃ rest, rest <:+ rounds ∧
      (rounds.foldl (fun e source => e.poll source i) e).result? i =
        (rest.foldl (fun e source => e.poll source j) f).result? j ∧
      ∀ error, (rounds.foldl (fun e source => e.poll source i) e).result? i ≠
        some (.error (.load error)) := by
  induction rounds generalizing e with
  | nil =>
    have hnone : f.result? j = none := by
      rw [Engine.result?, hfirst, Option.bind_some, Run.result?, hcreated]
    refine ⟨[], List.suffix_rfl, h.result?_eq_none.trans hnone.symm, fun error => ?_⟩
    simp [h.result?_eq_none]
  | cons part rounds ih =>
    obtain ⟨hpart, hrest⟩ := List.forall_mem_cons.1 hparts
    rcases h.poll hfirst hcreated hblank hpart with htrails | htogether
    · obtain ⟨rest, hsuffix, hresult⟩ := ih htrails hrest
      exact ⟨rest, hsuffix.trans (List.suffix_cons part rounds), hresult⟩
    · exact ⟨part :: rounds, List.suffix_rfl, (htogether.foldl hrest).result?_eq⟩

/-- Over stores without files, two runs of one query come to the same in any rounds. -/
theorem Blank.result?_foldl (h : files.Blank e.store) (hrun : e.runs[i]? = some run)
    (hstage : run.stage = .created) (hquery : first.query = run.query) (hkey : first.key = run.key)
    (hsubsets : f.subsets = e.subsets) (hsettings : f.settings = e.settings)
    (hfound : files.FoundIn source (e.needed run.query) run.key.order) {rounds : List Source}
    (hparts : ∀ part ∈ rounds, part.PartOf source) :
    (rounds.foldl (fun e source => e.poll source i) e).result? i =
        (rounds.foldl (fun e source => e.poll source j) f).result? j ∧
      ∀ error, (rounds.foldl (fun e source => e.poll source i) e).result? i ≠
        some (.error (.load error)) := by
  cases rounds with
  | nil =>
    simp [Engine.result?, hrun, hfirst, Run.result?, hstage, hcreated]
  | cons part rounds =>
    obtain ⟨hpart, hrest⟩ := List.forall_mem_cons.1 hparts
    have hi := (Array.getElem?_eq_some_iff.1 hrun).1
    have hj := (Array.getElem?_eq_some_iff.1 hfirst).1
    let run' : Run := { run with started := e.store.clock }
    let first' : Run := { first with started := f.store.clock }
    have habreast : files.Abreast ((e.write run.scope.start).beginAttempt run').1
        ((f.write first.scope.start).beginAttempt first').1 run' first'
        ((e.write run.scope.start).beginAttempt run').2
        ((f.write first.scope.start).beginAttempt first').2 :=
      Blank.abreast (h.of_contents_eq rfl) (hblank.of_contents_eq rfl) hquery hkey hsubsets hsettings
    have htogether : files.Together source i j (e.poll part i) (f.poll part j) := by
      rw [poll_of_created part hrun hstage, poll_of_created part hfirst hcreated]
      exact habreast.carryOn hfound hpart hi hj _ _
    exact (htogether.foldl hrest).result?_eq

end Fresh

/-- A run that begins over a store of another snapshot is behind, if something has to be loaded. -/
theorem Lags.trails (h : files.Lags (e.needed run.query) run.key.order e.store)
    (hrun : e.runs[i]? = some run) (hstage : run.stage = .created) (hidle : e.store.Idle)
    (hlacks : ¬e.store.Complete (e.needed run.query) run.key.order)
    (hagain : run.attempt < e.settings.attempts)
    (hfound : files.FoundIn source (e.needed run.query) run.key.order)
    (hquery : first.query = run.query) (hkey : first.key = run.key)
    (hsubsets : f.subsets = e.subsets) (hsettings : f.settings = e.settings) :
    files.Trails source i f first e := by
  let run' : Run := { run with started := e.store.clock }
  let e₁ : Engine := e.write run.scope.start
  have h₁ : files.Lags (e.needed run.query) run.key.order e₁.store := h.of_contents_eq rfl h.interval
  have hbegin : files.Lags (e.needed run.query) run.key.order (e₁.beginAttempt run').1.store :=
    h₁.begin (PropertySet.pairwise_toList _)
  have hlacks₁ : ¬∃ x, e₁.store.HasAll (e.needed run.query) run.key.order x := by
    rintro ⟨x, hall⟩
    exact hlacks (h.toCoherent.exists_hasAll_iff.1 ⟨x, hall.of_contents_eq rfl⟩)
  have hlasts : (e₁.beginAttempt run').2.Lasts (e₁.beginAttempt run').1.store :=
    lasts_begin h₁.toCoherent hidle (e.needed run.query) run.key.order hlacks₁ hbegin.toCoherent
  exact .intro hrun (e.enter_of_created hstage)
    ⟨hquery, hkey, hsubsets, hsettings, hbegin, hlasts, hagain⟩ hfound
    (Array.getElem?_eq_some_iff.1 hrun).1

/-- Where something is not loaded and what is loaded was replaced, a request comes to what it comes to
on a store that was never used, in the last of these rounds. -/
theorem FoundIn.exists_rest {q : Query} {ascending : Bool} {rounds : List Source}
    (hfound : files.FoundIn source (e.needed q) order)
    (hflight : e.inFlight.lookup ⟨q.digest, order, ascending⟩ = none) (hc : e.store.Coherent)
    (hidle : e.store.Idle) (hinterval : e.store.refetchInterval = 0)
    (hattempts : 2 ≤ e.settings.maxAttempts) (hfree : e.store.FreeOf files.time)
    (hlacks : ¬e.store.Complete (e.needed q) order) (refetchInterval : Nat)
    (hparts : ∀ part ∈ rounds, part.PartOf source) :
    let fresh : Engine :=
      { store := { refetchInterval }, subsets := e.subsets, settings := e.settings }
    ∃ rest, rest <:+ rounds ∧ outcomeOf (e.executeOver rounds ⟨q, order, ascending⟩) =
        outcomeOf (fresh.executeOver rest ⟨q, order, ascending⟩) ∧
      ∀ error, outcomeOf (e.executeOver rounds ⟨q, order, ascending⟩) ≠
        some (.error (.load error)) := by
  intro fresh
  let run : Run := asked q order ascending
  have hrun := e.getElem?_launch run
  have hfirst := fresh.getElem?_launch run
  have hblank : files.Blank (fresh.launch run).store := files.blank_start refetchInterval
  have hflight' : fresh.inFlight.lookup ⟨q.digest, order, ascending⟩ = none := rfl
  simp only [executeOver_of_lookup hflight, executeOver_of_lookup hflight', outcomeOf]
  rcases blank_or_lags hc hidle hinterval hfree with hstore | hlags
  · have hsame := Blank.result?_foldl hfirst rfl hblank (e := e.launch run) hstore hrun rfl rfl rfl
      rfl rfl hfound hparts
    exact ⟨rounds, List.suffix_rfl, hsame⟩
  · have hagain : run.attempt < e.settings.attempts :=
      Nat.lt_of_lt_of_le hattempts (Nat.le_max_left _ _)
    have htrails : files.Trails source e.runs.size (fresh.launch run) run (e.launch run) :=
      Lags.trails (e := e.launch run) hlags hrun rfl hidle hlacks hagain hfound rfl rfl rfl rfl
    exact htrails.exists_rest hfirst rfl hblank hparts

end FileSet

/-- Whatever searches and preloads do to it, a store keeps what its steps keep. -/
theorem Session.coherent_store_run (refetchInterval : Nat) (subsets : SubsetStore)
    (settings : EngineSettings) (actions : List SessionStep) :
    ((start refetchInterval subsets settings).run actions).engine.store.Coherent := by
  have hrun {s : Session} (hvalid : s.Valid) (hc : s.engine.store.Coherent) :
      (s.run actions).engine.store.Coherent := by
    induction actions generalizing s with
    | nil => exact hc
    | cons action actions ih =>
      exact ih (hvalid.step action) (hc.reaches (hvalid.reaches_step action))
  exact hrun (valid_start refetchInterval subsets settings) (coherent_start refetchInterval)

namespace Engine

theorem outcomeOf_execute_of_suffix {e : Engine} {request : RunRequest} {source : Source}
    {rest : List Source} {outcome : RunOutcome}
    (hsuffix : rest <:+ List.replicate (e.rounds + 1) source)
    (h : outcomeOf (e.executeOver rest request) = some outcome) :
    outcomeOf (e.execute source request) = some outcome := by
  -- the rounds are all alike, so those that are left out may as well come last
  obtain ⟨front, hfront⟩ := hsuffix
  have hmore : rest ++ front = List.replicate (e.rounds + 1) source := by
    obtain ⟨hlength, hfront', hrest⟩ := List.append_eq_replicate_iff.1 hfront
    exact List.append_eq_replicate_iff.2 ⟨(Nat.add_comm _ _).trans hlength, hrest, hfront'⟩
  rw [execute_eq, ← hmore, outcomeOf, executeOver]
  dsimp only
  rw [List.foldl_append]
  exact result?_foldl_poll h front

/-- Whatever searches and preloads have done to a store: where no load goes on, a search over files of
another creation time than all that is loaded ends, and with no error of a load. If all that it needs
is loaded it has nothing fetched. Else it comes to what it comes to on a store that was never used. So
it does over whatever the fetches have got each time that it is polled: from when the first of these
files comes it has come to what a first execution comes to in the rounds that are left. -/
theorem execution_recovers {files : FileSet} {source : Source} {q : Query} {order : SortOrder}
    (refetchInterval : Nat) (subsets : SubsetStore) (settings : EngineSettings)
    (actions : List SessionStep) (ascending : Bool) :
    let e : Engine := ((Session.start refetchInterval subsets settings).run actions).engine
    let fresh : Engine :=
      { store := { refetchInterval := 0 }, subsets := e.subsets, settings := e.settings }
    let request : RunRequest := ⟨q, order, ascending⟩
    e.store.Idle → e.store.refetchInterval = 0 → 2 ≤ e.settings.maxAttempts →
    e.inFlight.lookup ⟨q.digest, order, ascending⟩ = none →
    files.FoundIn source (e.needed q) order → e.store.FreeOf files.time →
    (∃ outcome, outcomeOf (e.execute source request) = some outcome ∧
      (∀ error, outcome ≠ .error (.load error)) ∧
      (e.store.Complete (e.needed q) order →
        (e.execute source request).1.store.fetches = e.store.fetches) ∧
      (¬e.store.Complete (e.needed q) order →
        outcomeOf (fresh.execute source request) = some outcome)) ∧
    ∀ rounds : List Source, (∀ part ∈ rounds, part.PartOf source) →
      (∀ error, outcomeOf (e.executeOver rounds request) ≠ some (.error (.load error))) ∧
      (e.store.Complete (e.needed q) order →
        (e.executeOver rounds request).1.store.fetches = e.store.fetches) ∧
      (¬e.store.Complete (e.needed q) order → ∃ rest, rest <:+ rounds ∧
        outcomeOf (e.executeOver rounds request) = outcomeOf (fresh.executeOver rest request)) := by
  intro e fresh request hidle hinterval hattempts hflight hfound hfree
  have hc : e.store.Coherent := Session.coherent_store_run refetchInterval subsets settings actions
  have hrounds (rounds : List Source) (hparts : ∀ part ∈ rounds, part.PartOf source) :
      (∀ error, outcomeOf (e.executeOver rounds request) ≠ some (.error (.load error))) ∧
      (e.store.Complete (e.needed q) order →
        (e.executeOver rounds request).1.store.fetches = e.store.fetches) ∧
      (¬e.store.Complete (e.needed q) order → ∃ rest, rest <:+ rounds ∧
        outcomeOf (e.executeOver rounds request) = outcomeOf (fresh.executeOver rest request)) := by
    by_cases hcomplete : e.store.Complete (e.needed q) order
    · obtain ⟨hload, hfetches⟩ := executeOver_of_complete hflight hc hcomplete rounds
      exact ⟨hload, fun _ => hfetches, fun hlacks => absurd hcomplete hlacks⟩
    · obtain ⟨rest, hsuffix, hsame, hload⟩ := hfound.exists_rest hflight hc hidle hinterval hattempts
        hfree hcomplete 0 hparts
      exact ⟨hload, fun h => absurd h hcomplete, fun _ => ⟨rest, hsuffix, hsame⟩⟩
  refine ⟨?_, hrounds⟩
  obtain ⟨outcome, houtcome⟩ : ∃ outcome, outcomeOf (e.execute source request) = some outcome :=
    Option.ne_none_iff_exists'.1
      (result?_execute_ne_none hflight (hc.asks_of_idle hidle) hfound)
  have hall : e.execute source request =
      e.executeOver (List.replicate (e.rounds + 1) source) request := execute_eq source e request
  obtain ⟨hload, hfetches, hlacks⟩ := hrounds (List.replicate (e.rounds + 1) source)
    fun part hpart => List.eq_of_mem_replicate hpart ▸ source.partOf_self
  rw [← hall] at hload hfetches hlacks
  refine ⟨outcome, houtcome, fun error heq => hload error (heq ▸ houtcome), hfetches, fun h => ?_⟩
  obtain ⟨rest, hsuffix, hsame⟩ := hlacks h
  exact outcomeOf_execute_of_suffix (e := fresh) hsuffix (hsame.symm.trans houtcome)

def earlierNames : Source := fun file =>
  if file = "card_name.json" then some (.ok (Bytes.ofText "[6,[[\"A\"]]]")) else none

def namedEarlier : Session :=
  (Session.start 0 ∅ {}).run [.load .name, .pollLoad earlierNames 0, .pollLoad earlierNames 0]

/-- What was printed again is found although the names were those of earlier files: the store is
cleared once. -/
theorem execution_recovers_reprints :
    let e : Engine := namedEarlier.engine
    let fresh : Engine :=
      { store := { refetchInterval := 0 }, subsets := e.subsets, settings := e.settings }
    let request : RunRequest := ⟨reprints, .cmc, true⟩
    e.store.Idle ∧ e.store.refetchInterval = 0 ∧ 2 ≤ e.settings.maxAttempts ∧
      e.inFlight.lookup ⟨reprints.digest, .cmc, true⟩ = none ∧
      printed.FoundIn printedSource (e.needed reprints) .cmc ∧ e.store.FreeOf printed.time ∧
      ¬e.store.Complete (e.needed reprints) .cmc ∧
      outcomeOf (e.execute printedSource request) = outcomeOf (fresh.execute printedSource request) ∧
      (e.execute printedSource request).1.store.metrics.refetches = 1 ∧
      ((outcomeOf (e.execute printedSource request)).bind Except.toOption).map
        (fun r => (r.records, r.versions, r.names)) = some ([2, 0], [1, 1], ["C", "A"]) := by
  intro e fresh request
  have hidle : e.store.Idle := by
    intro id t ht
    have hended : ∀ t ∈ e.store.tasks.toList, t.result?.isSome = true := by decide +kernel
    have hmem : t ∈ e.store.tasks.toList := Array.mem_toList_iff.2 (Array.mem_of_getElem? ht)
    exact Option.isSome_iff_ne_none.1 (hended t hmem)
  have hneeded : e.needed reprints = [.name, .reprint] := by decide +kernel
  have hfound : printed.FoundIn printedSource (e.needed reprints) .cmc := by
    rw [hneeded]
    exact heldBy_printedSource.foundIn
  have hfree : e.store.FreeOf printed.time := by
    intro htime
    have hother : e.store.creationTime? ≠ some printed.time := by decide +kernel
    exact absurd htime hother
  have hlacks : ¬e.store.Complete (e.needed reprints) .cmc := by
    rintro ⟨hfile | ⟨id, hid, -⟩, -⟩
    · cases hfile
    · have hother : ∀ y ∈ e.store.current, y.1 ≠ .sorter .cmc := by decide +kernel
      exact hother _ hid rfl
  obtain ⟨⟨outcome, houtcome, -, -, hsame⟩, -⟩ :=
    execution_recovers 0 ∅ {} [.load .name, .pollLoad earlierNames 0, .pollLoad earlierNames 0] true
      hidle rfl (by decide) rfl hfound hfree
  exact ⟨hidle, rfl, by decide, rfl, hfound, hfree, hlacks, houtcome.trans (hsame hlacks).symm,
    by decide +kernel, by decide +kernel⟩

end Engine

end CardSearch
