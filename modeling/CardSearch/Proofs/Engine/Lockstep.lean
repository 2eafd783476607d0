import CardSearch.Proofs.Engine.Execution
import CardSearch.Proofs.Store.Readiness
import CardSearch.Proofs.Store.Twins

/-!
# Runs that keep step

Two runs of one query over stores that load the same wait for the same and end with the same. An
attempt that has all it needs leaves nothing to load for those that follow it: they meet its error
again, and no other.
-/

namespace CardSearch

open CardStore

/-- Whoever has seen all loads end that are waited for has all that is needed, if nothing else is
current. -/
theorem Waiting.Sound.hasAll {s : CardStore} {w : Waiting} {needed : List Property}
    {order : SortOrder} {x : Sorter} (hc : s.Coherent) (hbound : s.Bound needed order)
    (hsound : w.Sound s needed order s.generation) (hready : w.Ready s x) :
    s.HasAll needed order x := by
  obtain ⟨fetched, hvalid⟩ := hc.valid
  have htold := (Contents.reloaded_of_sound hvalid hsound hready).1
  have hasked {target : LoadTarget} {id : LoadId} (hid : (target, id) ∈ s.contents.current)
      {file : String} (hfile : target.file? = some file) : target.AskedFor needed order :=
    (hbound _ hid).resolve_right (by simp [hfile])
  have hloaded := Contents.hasLoaded_iff_of_told (fun p ⟨_, hid, _⟩ => hasked hid rfl) htold
  refine ⟨.inl ⟨_, hsound.sorter.current_of_ok hready.sorter, hready.sorter⟩, fun {p} hp => ?_⟩
  obtain ⟨q, hq⟩ := (s.targetOf_cases p).1
  have hbefore (hreprint : p = .reprint) (r : Property) (hr : r ∈ needed) (hlt : r.index < p.index) :
      ∃ id, (.column r.source, id) ∈ s.contents.current := by
    obtain ⟨r', hserved, id, hid, -⟩ := htold r hr
    rw [Property.ServedBy, if_neg fun heq => Nat.ne_of_lt hlt (by rw [heq, hreprint])] at hserved
    exact ⟨id, hserved ▸ hid⟩
  have hfor : q.LoadedFor needed := by
    rcases s.current_or_askedFor_targetOf order hp hbefore with ⟨id, hid⟩ | htarget
    · exact hasked (hq ▸ hid) rfl
    · rwa [hq] at htarget
  rw [hq]
  exact .inr ((hloaded q).2 hfor)

namespace Engine

variable {e e' : Engine} {source : Source} {id : RunId} {run : Run} {w : Waiting} {n : Nat}
  {x : Sorter} {s : CardStore}

theorem outcomeOn_ne_load (catalog : Catalog) (subsets : SubsetStore) (settings : EngineSettings)
    (key : RunKey) (x : Sorter) (c : Condition) (error : LoadError) :
    outcomeOn catalog subsets settings key x c ≠ .error (.load error) := by
  unfold outcomeOn
  split <;> exact nofun

private theorem fetches_evaluate (e : Engine) (run : Run) (x : Sorter) :
    (e.evaluate run x).1.store.fetches = e.store.fetches := by
  have hmissing (ids : List String) (e : Engine) :
      (ids.foldl (fun e id => e.report .subsetMissing [("subset_id", id)]) e).store.fetches =
        e.store.fetches := by
    induction ids generalizing e with
    | nil => rfl
    | cons id ids ih => exact ih _
  unfold evaluate
  dsimp only
  generalize Scan.all ⟨e.store.catalog, e.subsets, run.query.condition⟩ e.settings.selection
    e.settings.arenaBytes = scan
  rw [← Array.foldl_toList]
  split
  · exact hmissing _ e
  · refine Eq.trans ?_ (hmissing scan.missing.toList e)
    dsimp only
    split <;> rfl

private theorem fetches_endRun (e : Engine) (id : RunId) (run : Run) (outcome : RunOutcome) :
    (e.endRun id run outcome).store.fetches = e.store.fetches := by
  cases outcome <;> rfl

/-- Where all that is needed is loaded when an attempt finds its loads ready, the run ends in the same
poll. Nothing is fetched for the attempts that may follow. -/
theorem result?_carryOn_of_ready {n : Nat} {e : Engine} {run : Run} {w : Waiting} {s : CardStore}
    (hpoll : w.poll source e.store = (s, .ready x)) (hc : s.Coherent)
    (hall : s.HasAll (e.needed run.query) run.key.order x) (hid : id < e.runs.size) :
    (carryOn source id n e run w).result? id =
        some (outcomeOn s.catalog e.subsets e.settings run.key x run.query.condition) ∧
      (carryOn source id n e run w).store.fetches = s.fetches := by
  let e₁ : Engine := { e with store := s }
  obtain ⟨hreports, -⟩ := e₁.evaluate_spec run x
  have hfetches := e₁.fetches_evaluate run x
  have hattempt : e.attempt source run w = ((e₁.evaluate run x).1, .inr (e₁.evaluate run x).2) := by
    rw [attempt, hpoll]
  have houtcome : (e₁.evaluate run x).2 =
      outcomeOn s.catalog e.subsets e.settings run.key x run.query.condition := e₁.evaluate_snd run x
  rw [carryOn_eq, hattempt, houtcome]
  generalize (e₁.evaluate run x).1 = e' at *
  have hid' : id < e'.runs.size := hreports.runs_eq ▸ hid
  cases houtcome : outcomeOn s.catalog e.subsets e.settings run.key x run.query.condition with
  | ok result =>
    exact ⟨e'.result?_endRun hid' run (.ok result), (e'.fetches_endRun ..).trans hfetches⟩
  | error error =>
    cases n with
    | zero =>
      exact ⟨e'.result?_endRun hid' run (.error error), (e'.fetches_endRun ..).trans hfetches⟩
    | succ n =>
      let next : Run := { run with attempt := run.attempt + 1 }
      let e₂ : Engine := e'.noteRetry run error
      have hcontents : e₂.store.contents = s.contents := hreports.contents_eq
      have hneeded : e₂.needed next.query = e.needed run.query :=
        needed_congr hreports.settings_eq run.query
      have hall₂ : e₂.store.HasAll (e₂.needed next.query) next.key.order x :=
        hneeded ▸ hall.of_contents_eq hcontents
      obtain ⟨s', w', hbegin, hall', hc', hcatalog, hfetches', hready⟩ :=
        hall₂.begin (hc.of_contents_eq hcontents)
      have hbegin' : e₂.beginAttempt next = ({ e₂ with store := s' }, w') := by
        rw [beginAttempt, hbegin]
      have hnext : afterFailure source id (n + 1) e' run error =
          carryOn source id n { e₂ with store := s' } next w' := by
        rw [afterFailure]
        dsimp only
        rw [hbegin']
      obtain ⟨hresult, hfetched⟩ : (afterFailure source id (n + 1) e' run error).result? id =
          some (outcomeOn s'.catalog e'.subsets e'.settings run.key x run.query.condition) ∧
            (afterFailure source id (n + 1) e' run error).store.fetches = s'.fetches := by
        rw [hnext]
        exact result?_carryOn_of_ready (hready source) hc' hall' hid'
      have hsame : outcomeOn s'.catalog e'.subsets e'.settings run.key x run.query.condition =
          .error error := by
        have hloaded : e₂.store.catalog = s.catalog := congrArg Contents.catalog hcontents
        rw [hcatalog, hloaded, hreports.subsets_eq, hreports.settings_eq]
        exact houtcome
      exact ⟨hresult.trans (congrArg some hsame), hfetched.trans (hfetches'.trans hfetches)⟩
termination_by n

theorem carryOn_of_pending {w' : Waiting} (hpoll : w.poll source e.store = (s, .pending w')) :
    carryOn source id n e run w =
      ({ e with store := s } : Engine).setRun id { run with stage := .loading w' } := by
  rw [carryOn_eq, attempt, hpoll]

end Engine

namespace Waiting

variable {s s' : CardStore} {source : Source} {needed : List Property} {order : SortOrder}
  {w w' : Waiting} {x : Sorter}

/-- What there is more to wait for is held in the generation that the store is in. -/
theorem Sound.of_pending (hc : s.Coherent) (h : w.Sound s needed order s.generation)
    (hpoll : w.poll source s = (s', .pending w')) : w'.Sound s' needed order s'.generation := by
  obtain ⟨fetched, hvalid⟩ := hc.valid
  have hgoes := goes_poll source hvalid h
  rw [hpoll] at hgoes
  cases hgoes with
  | pending _ hgen hsound => exact hgen.symm ▸ hsound

theorem Sound.hasAll_of_ready (hc : s.Coherent) (h : w.Sound s needed order s.generation)
    (hpoll : w.poll source s = (s', .ready x)) (hc' : s'.Coherent) (hbound : s'.Bound needed order) :
    s'.HasAll needed order x := by
  obtain ⟨fetched, hvalid⟩ := hc.valid
  have hgoes := goes_poll source hvalid h
  rw [hpoll] at hgoes
  cases hgoes with
  | ready _ hgen hsound hready => exact Sound.hasAll hc' hbound (hgen.symm ▸ hsound) hready

end Waiting

namespace FileSet

open Engine

variable {files : FileSet} {source part : Source} {e₁ e₂ : Engine} {i j : RunId} {run₁ run₂ : Run}
  {w₁ w₂ : Waiting}

structure Abreast (files : FileSet) (e₁ e₂ : Engine) (run₁ run₂ : Run) (w₁ w₂ : Waiting) : Prop where
  query_eq : run₂.query = run₁.query
  key_eq : run₂.key = run₁.key
  subsets_eq : e₂.subsets = e₁.subsets
  settings_eq : e₂.settings = e₁.settings
  stores : files.Alike (e₁.needed run₁.query) run₁.key.order e₁.store e₂.store
  waiting : Waiting.Alike e₁.store e₂.store w₁ w₂
  sound_left : w₁.Sound e₁.store (e₁.needed run₁.query) run₁.key.order e₁.store.generation
  sound_right : w₂.Sound e₂.store (e₁.needed run₁.query) run₁.key.order e₂.store.generation

inductive Together (files : FileSet) (source : Source) (i j : RunId) (e₁ e₂ : Engine) : Prop
  | ended {outcome : RunOutcome} (hload : ∀ error, outcome ≠ .error (.load error))
    (hleft : e₁.result? i = some outcome) (hright : e₂.result? j = some outcome)
  | waits {run₁ run₂ : Run} {w₁ w₂ : Waiting} (hleft : e₁.runs[i]? = some run₁)
    (hright : e₂.runs[j]? = some run₂) (hstage₁ : run₁.stage = .loading w₁)
    (hstage₂ : run₂.stage = .loading w₂) (h : files.Abreast e₁ e₂ run₁ run₂ w₁ w₂)
    (hfound : files.FoundIn source (e₁.needed run₁.query) run₁.key.order)

/-- Runs that wait for the same are carried on to the same end, or wait for the same again, however
many attempts are left to each. -/
theorem Abreast.carryOn (h : files.Abreast e₁ e₂ run₁ run₂ w₁ w₂)
    (hfound : files.FoundIn source (e₁.needed run₁.query) run₁.key.order)
    (hpart : part.PartOf source) (hi : i < e₁.runs.size) (hj : j < e₂.runs.size) (n m : Nat) :
    files.Together source i j (carryOn part i n e₁ run₁ w₁) (carryOn part j m e₂ run₂ w₂) := by
  have hneeded : e₂.needed run₂.query = e₁.needed run₁.query := by
    rw [h.query_eq, needed_congr h.settings_eq]
  obtain ⟨s₁, s₂, hstores, ⟨x, hleft, hright⟩ | ⟨w₁', w₂', hleft, hright, hw⟩⟩ :=
    h.stores.poll_waiting hfound hpart h.waiting
  · have hall₁ := h.sound_left.hasAll_of_ready h.stores.left hleft hstores.left hstores.bound_left
    have hall₂ := h.sound_right.hasAll_of_ready h.stores.right hright hstores.right
      hstores.bound_right
    have hend₁ := (result?_carryOn_of_ready (n := n) hleft hstores.left hall₁ hi).1
    have hend₂ := (result?_carryOn_of_ready (n := m) hright hstores.right
      (by rwa [hneeded, h.key_eq]) hj).1
    have hcatalog : s₁.catalog = s₂.catalog := hstores.catalog_eq
    refine .ended (fun error => outcomeOn_ne_load _ _ _ _ _ _ error) hend₁ (hend₂.trans ?_)
    rw [hcatalog, h.query_eq, h.key_eq, h.subsets_eq, h.settings_eq]
  · have hsound₁ := h.sound_left.of_pending h.stores.left hleft
    have hsound₂ := h.sound_right.of_pending h.stores.right hright
    rw [carryOn_of_pending hleft, carryOn_of_pending hright]
    exact .waits (Array.getElem?_setIfInBounds_self_of_lt hi)
      (Array.getElem?_setIfInBounds_self_of_lt hj) rfl rfl
      ⟨h.query_eq, h.key_eq, h.subsets_eq, h.settings_eq, hstores, hw, hsound₁, hsound₂⟩ hfound

theorem Together.poll (h : files.Together source i j e₁ e₂) (hpart : part.PartOf source) :
    files.Together source i j (e₁.poll part i) (e₂.poll part j) := by
  cases h with
  | ended hload hleft hright =>
    rw [poll_of_result hleft, poll_of_result hright]
    exact .ended hload hleft hright
  | waits hleft hright hstage₁ hstage₂ h hfound =>
    have hi := (Array.getElem?_eq_some_iff.1 hleft).1
    have hj := (Array.getElem?_eq_some_iff.1 hright).1
    rw [poll_eq, poll_eq, hleft, hright, Option.bind_some, Option.bind_some, enter, enter, hstage₁,
      hstage₂]
    exact h.carryOn hfound hpart hi hj _ _

/-- After any rounds over parts of the files both have ended with the same, or neither has ended. -/
theorem Together.foldl {rounds : List Source} (h : files.Together source i j e₁ e₂)
    (hparts : ∀ part ∈ rounds, part.PartOf source) :
    files.Together source i j (rounds.foldl (fun e source => e.poll source i) e₁)
      (rounds.foldl (fun e source => e.poll source j) e₂) := by
  induction rounds generalizing e₁ e₂ with
  | nil => exact h
  | cons part rounds ih =>
    obtain ⟨hpart, hparts⟩ := List.forall_mem_cons.1 hparts
    exact ih (h.poll hpart) hparts

theorem Together.result?_eq (h : files.Together source i j e₁ e₂) :
    e₁.result? i = e₂.result? j ∧ ∀ error, e₁.result? i ≠ some (.error (.load error)) := by
  cases h with
  | ended hload hleft hright =>
    refine ⟨hleft.trans hright.symm, fun error herror => hload error ?_⟩
    exact Option.some.inj (hleft.symm.trans herror)
  | waits hleft hright hstage₁ hstage₂ =>
    simp [Engine.result?, hleft, hright, Run.result?, hstage₁, hstage₂]

end FileSet

end CardSearch
