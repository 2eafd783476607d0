import CardSearch.Proofs.Store.Progress
import CardSearch.Proofs.Store.Readiness
import CardSearch.Proofs.Store.Twins

/-!
# Files that were replaced

A store of an earlier snapshot takes in no file of the new one: the first answer that comes to any of
the loads that are waited for shows that the files were replaced, fails that load and has the store
cleared. Nothing of the earlier snapshot is left then.
-/

namespace CardSearch

open CardStore Contents

namespace CardStore

variable {s : CardStore} {time expected actual : UInt64}

/-- A file of another snapshot is refused. -/
theorem checkSnapshot_of_ne (hsome : s.creationTime? = some expected) (hne : expected ≠ actual) :
    s.checkSnapshot actual = (s.outdate expected actual, .error (.stale expected actual)) := by
  rw [checkSnapshot, hsome]
  exact if_neg hne

/-- Without an interval to wait for, such a file has the store cleared. -/
theorem contents_outdate_of_interval (h : s.refetchInterval = 0) (expected actual : UInt64) :
    (s.outdate expected actual).contents = s.contents.cleared := by
  have hmay (event : LogEvent) (fields : List (String × String)) :
      (s.report event fields).mayClear = true := by
    have hinterval : (s.report event fields).refetchInterval = 0 := h
    simp [mayClear, hinterval]
  unfold outdate
  dsimp only
  rw [if_pos (hmay _ _)]
  rfl

/-- Nothing of a file is loaded in a snapshot of this creation time. -/
def FreeOf (s : CardStore) (time : UInt64) : Prop :=
  s.creationTime? = some time → ∀ y ∈ s.current, y.1.file? = none

/-- Where no load goes on and no file was accepted, nothing of a file is loaded. -/
theorem Coherent.free_of_idle (h : s.Coherent) (hidle : s.Idle) (hnone : s.creationTime? = none) :
    ∀ y ∈ s.contents.current, y.1.file? = none := by
  obtain ⟨fetched, hvalid⟩ := h.valid
  have hfixed {time : UInt64} : s.contents.creationTime? ≠ some time := fun hsome =>
    nomatch hnone.symm.trans hsome
  rintro ⟨target, id⟩ hid
  rcases h.has_of_idle hidle hid with hfile | ⟨id, hid, l, hl⟩
  · exact hfile
  · cases target with
    | column p =>
      obtain ⟨time, htime, -⟩ := hvalid.column hid hl
      exact absurd htime hfixed
    | sorter order =>
      obtain ⟨x, rfl, horder⟩ := h.exists_sorter hid hl
      cases x with
      | name =>
        cases horder
        rfl
      | index i => exact absurd (hvalid.sorter hid hl rfl) hfixed

theorem refetchInterval_poll (s : CardStore) (source : Source) (id : LoadId) :
    (s.poll source id).refetchInterval = s.refetchInterval := by
  have huntouched : Untouched CardStore.refetchInterval :=
    ⟨fun _ _ _ => rfl, fun _ => rfl, fun _ _ => rfl, fun _ _ => rfl, fun _ _ => rfl, fun _ _ => rfl⟩
  exact huntouched.poll (fun _ _ => rfl) s source id

private theorem refetchInterval_request (s : CardStore) (target : LoadTarget) :
    (s.request target).1.refetchInterval = s.refetchInterval := by
  unfold request
  split <;> rfl

structure Stays (s s' : CardStore) : Prop extends Extends s.contents s'.contents where
  same (j : LoadId) : s'.contents.result? j = s.contents.result? j

namespace Stays

variable {s' s'' : CardStore} {id : LoadId}

theorem refl (s : CardStore) : s.Stays s := ⟨.refl _, fun _ => rfl⟩

private theorem trans (h : s.Stays s') (h' : s'.Stays s'') : s.Stays s'' :=
  ⟨h.toExtends.trans h'.toExtends, fun j => (h'.same j).trans (h.same j)⟩

theorem pends (h : s.Stays s') (hpends : s.Pends id) : s'.Pends id := by
  obtain ⟨t, ht, hpending⟩ := hpends
  obtain ⟨t', ht', -⟩ := h.task ht
  refine ⟨t', ht', ?_⟩
  have hsame := h.same id
  rw [Contents.result?, Contents.result?, ht, ht', Option.bind_some, Option.bind_some] at hsame
  exact hsame.trans hpending

end Stays

end CardStore

namespace FileSet

variable {files : FileSet} {source part : Source} {needed : List Property} {order : SortOrder}
  {s s' : CardStore} {id : LoadId} {t : LoadTask} {target : LoadTarget}

/-- A store of another snapshot than these files, all of whose loads that go on are of what is asked
for. -/
structure Lags (files : FileSet) (needed : List Property) (order : SortOrder) (s : CardStore) : Prop
    extends s.Asks needed order where
  time : ∃ time, s.contents.creationTime? = some time ∧ time ≠ files.time
  interval : s.refetchInterval = 0

/-- A store in which no load goes on and nothing of this creation time is loaded has nothing loaded,
or is behind. -/
theorem blank_or_lags (hc : s.Coherent) (hidle : s.Idle) (hinterval : s.refetchInterval = 0)
    (hfree : s.FreeOf files.time) : files.Blank s ∨ files.Lags needed order s := by
  cases htime : s.creationTime? with
  | none => exact .inl ⟨hc, .inl htime, hc.free_of_idle hidle htime⟩
  | some time =>
    by_cases heq : time = files.time
    · subst heq
      exact .inl ⟨hc, .inr htime, hfree htime⟩
    · exact .inr ⟨hc.asks_of_idle hidle, ⟨time, htime, heq⟩, hinterval⟩

theorem Lags.of_contents_eq (h : files.Lags needed order s) (heq : s'.contents = s.contents)
    (hinterval : s'.refetchInterval = 0) : files.Lags needed order s' :=
  ⟨h.toAsks.of_contents_eq heq, heq ▸ h.time, hinterval⟩

private theorem Lags.request (h : files.Lags needed order s)
    (htarget : target.AskedFor needed order) : files.Lags needed order (s.request target).1 where
  toAsks := h.toAsks.request htarget
  time := by
    rw [(catalog_of_requests (requests_request s target)).2]
    exact h.time
  interval := (refetchInterval_request s target).trans h.interval

theorem Lags.begin (h : files.Lags needed order s)
    (hsorted : needed.Pairwise (fun p q => p.index < q.index)) :
    files.Lags needed order (Waiting.begin s needed order).1 :=
  begin_of_askedFor (fun h htarget => h.request htarget) h hsorted

/-- A file of the new snapshot is refused, and has the store cleared. -/
theorem FoundIn.accept_of_lags (hfound : files.FoundIn source needed order)
    (htarget : target.AskedFor needed order) {file : String} (hfile : target.file? = some file)
    {time : UInt64} (hsome : s.creationTime? = some time) (hne : time ≠ files.time) :
    ∃ bytes, source file = some (.ok bytes) ∧ s.accept target file bytes =
      (s.outdate time files.time, .error (.stale time files.time)) := by
  have hcheck := checkSnapshot_of_ne hsome hne
  cases target with
  | column p =>
    obtain ⟨bytes, data, hbytes, hread, -⟩ := hfound.file htarget
    cases hfile
    refine ⟨bytes, hbytes, ?_⟩
    simp only [accept, hread, acceptPayload, hcheck]
  | sorter other =>
    obtain rfl : other = order := htarget
    obtain ⟨bytes, index, hbytes, hread, htime, -⟩ := hfound.index hfile
    refine ⟨bytes, hbytes, ?_⟩
    simp only [accept, hread, acceptIndex, htime, hcheck]

section Polling

variable (hfound : files.FoundIn source needed order) (hpart : part.PartOf source)
include hfound hpart

/-- Polling a load either leaves the store behind, with no more loads ended than before, or has it
cleared and fails. -/
theorem Lags.poll (h : files.Lags needed order s) (id : LoadId) :
    files.Lags needed order (s.poll part id) ∧ s.Stays (s.poll part id) ∨
      files.Blank (s.poll part id) ∧ ∃ e, (s.poll part id).result? id = some (.error e) := by
  rcases (s.exists_pending_or_poll_eq part id).symm with hsame | ⟨t, ht, hpending⟩
  · rw [hsame]
    exact .inl ⟨h, .refl s⟩
  · have hasks := h.toAsks.poll part id
    have hinterval := (s.refetchInterval_poll part id).trans h.interval
    have hget : s.tasks[id]? = some t := ht
    cases hstage : t.stage with
    | finished r => simp [LoadTask.result?, hstage] at hpending
    | requested =>
      have hpoll : (s.poll part id).contents = s.contents.withStage id t .fetching := by
        rw [CardStore.poll, hget]
        simp only [hstage]
        rfl
      have hr : Restages s.contents id t .fetching (s.poll part id).contents := by
        rw [hpoll]
        exact restages_withStage ht hpending rfl rfl rfl fun e he => by cases he
      refine .inl ⟨⟨hasks, ?_, hinterval⟩, hr.to_extends, fun j => ?_⟩
      · rw [hpoll]
        exact h.time
      · rw [hr.result_eq]
        split
        · next heq =>
          rw [heq, Contents.result?, ht]
          exact hpending.symm
        · rfl
    | fetching =>
      rcases hpart t.file with hnone | hsame
      · rw [poll_of_unanswered ht hstage hnone]
        exact .inl ⟨h, .refl s⟩
      · obtain ⟨time, hsome, hne⟩ := h.time
        obtain ⟨bytes, hbytes, haccept⟩ := hfound.accept_of_lags (s := s) (h.asked ht hpending)
          (h.file?_eq ht hpending) hsome hne
        have hpoll : (s.poll part id).contents =
            (s.contents.cleared.withStage id t (.finished (.error (.stale time files.time)))).without
              t.target := by
          rw [CardStore.poll, hget]
          simp only [hstage, hsame, hbytes, finish, haccept]
          rw [contents_settle, contents_outdate_of_interval h.interval]
        have hgen := generation_of_polls (polls_poll s part id)
        have hblank : files.Blank (s.poll part id) := by
          refine ⟨hasks.toCoherent, .inl ?_, fun y hy => ?_⟩
          · rw [hpoll]
            rfl
          · rw [hpoll] at hy
            exact absurd hy (not_mem_clearedBy y)
        refine .inr ⟨hblank, hgen.resolve_left fun hsame => ?_⟩
        rw [hpoll] at hsame
        exact Nat.succ_ne_self _ hsame

/-- A round over loads none of which has failed either fails and leaves a store without files, or
leaves the store behind, and every load that goes on is still waited for. -/
theorem Lags.pollAll {as : List Awaited} (h : files.Lags needed order s)
    (hok : ∀ a ∈ as, ∀ e, s.contents.result? a.load ≠ some (.error e)) :
    (∃ s' e, s.pollAll part as = (s', .error e) ∧ files.Blank s') ∨
      ∃ s' as', s.pollAll part as = (s', .ok as') ∧ files.Lags needed order s' ∧ s.Stays s' ∧
        as'.map Awaited.load = as.map Awaited.load ∧
        ∀ a ∈ as, a.done = false → s.Pends a.load → a ∈ as' := by
  induction as generalizing s with
  | nil => exact .inr ⟨s, [], rfl, h, .refl s, rfl, nofun⟩
  | cons a as ih =>
    obtain ⟨hfirst, hrest⟩ := List.forall_mem_cons.1 hok
    rcases pollAll_cons part s a as with ⟨e, he, heq⟩ | ⟨s₁, a', hone, heq⟩
    · rcases h.poll hfound hpart a.load with ⟨-, hstays⟩ | ⟨hblank, -⟩
      · exact absurd ((hstays.same a.load).symm.trans he) (hfirst e)
      · exact .inl ⟨_, e, heq, hblank⟩
    · -- nothing has ended that had not, so a load that goes on is still waited for
      obtain ⟨hlags, hstays, hload, hself⟩ : files.Lags needed order s₁ ∧ s.Stays s₁ ∧
          a'.load = a.load ∧ (a.done = false → s.Pends a.load → a' = a) := by
        have hpolled {r : Option (Except LoadError Loaded)}
            (hresult : (s.poll part a.load).result? a.load = r) (hr : ∀ e, r ≠ some (.error e)) :
            files.Lags needed order (s.poll part a.load) ∧ s.Stays (s.poll part a.load) := by
          refine (h.poll hfound hpart a.load).resolve_right ?_
          rintro ⟨-, e, he⟩
          exact hr e (hresult.symm.trans he)
        cases hone with
        | passed hdone => exact ⟨h, .refl s, rfl, fun _ _ => rfl⟩
        | ended hdone hresult =>
          obtain ⟨hlags, hstays⟩ := hpolled hresult nofun
          refine ⟨hlags, hstays, rfl, fun _ hpends => ?_⟩
          exact nomatch (hstays.pends hpends).result?_eq.symm.trans hresult
        | pending hdone hresult =>
          obtain ⟨hlags, hstays⟩ := hpolled hresult nofun
          exact ⟨hlags, hstays, rfl, fun _ _ => rfl⟩
      have hrest' (b : Awaited) (hb : b ∈ as) (e : LoadError) :
          s₁.contents.result? b.load ≠ some (.error e) := by
        rw [hstays.same]
        exact hrest b hb e
      rw [heq]
      rcases ih hlags hrest' with
        ⟨s', e, hall, hblank⟩ | ⟨s', as', hall, hlags', hstays', hloads, hleft⟩
      · exact .inl ⟨s', e, by rw [hall]; rfl, hblank⟩
      · refine .inr ⟨s', a' :: as', by rw [hall]; rfl, hlags', hstays.trans hstays',
          by simp [hload, hloads], ?_⟩
        refine List.forall_mem_cons.2 ⟨fun hnot hpends => ?_, fun b hb hnot hpends => ?_⟩
        · exact hself hnot hpends ▸ List.mem_cons_self
        · exact List.mem_cons_of_mem _ (hleft b hb hnot (hstays.pends hpends))

end Polling

end FileSet

namespace Waiting

open CardStore

variable {s s' : CardStore} {w : Waiting}

structure Lasts (w : Waiting) (s : CardStore) : Prop where
  goesOn : w.GoesOn s
  columns {id : LoadId} : id ∈ w.columns.map Awaited.load →
    ∀ e, s.contents.result? id ≠ some (.error e)
  sorter (e : LoadError) : s.contents.result? w.sorter ≠ some (.error e)

/-- Where no more loads have ended, what was waited for goes on, if nothing was crossed off that
does. -/
theorem Lasts.of_stays {columns : List Awaited} (h : w.Lasts s) (hstays : s.Stays s')
    (hloads : columns.map Awaited.load = w.columns.map Awaited.load)
    (hleft : ∀ a ∈ w.columns, a.done = false → s.Pends a.load → a ∈ columns) :
    ({ w with columns } : Waiting).Lasts s' where
  goesOn := by
    refine h.goesOn.imp (fun ⟨a, ha, hnot, hpends⟩ => ?_) fun ⟨hnone, hpends⟩ => ?_
    · exact ⟨a, hleft a ha hnot hpends, hnot, hstays.pends hpends⟩
    · exact ⟨hnone, hstays.pends hpends⟩
  columns hid e := by
    rw [hstays.same]
    exact h.columns (hloads ▸ hid) e
  sorter e := by
    rw [hstays.same]
    exact h.sorter e

/-- Where the sorter does not go on, a column does, so there is more to wait for. -/
theorem Lasts.settle (h : w.Lasts s) (hsorter : ¬(w.sorterSeen = none ∧ s.Pends w.sorter))
    (x : Sorter) : ∃ w', w.settle s x = (s, .pending w') ∧ w'.Lasts s := by
  obtain ⟨a, ha, hnot, hpends⟩ := h.goesOn.resolve_right hsorter
  rcases w.settle_cases s x with ⟨hall, -⟩ | ⟨-, hpending⟩
  · exact nomatch hnot.symm.trans (List.all_eq_true.1 hall a ha)
  · exact ⟨_, hpending, .inl ⟨a, ha, hnot, hpends⟩, h.columns, h.sorter⟩

end Waiting

namespace FileSet

variable {files : FileSet} {source part : Source} {needed : List Property} {order : SortOrder}
  {s : CardStore} {w : Waiting}

/-- Polling what goes on in a store that is behind never has it all ready: it fails and leaves a store
without files, or there is more to wait for. -/
theorem Lags.poll_waiting (h : files.Lags needed order s)
    (hfound : files.FoundIn source needed order) (hpart : part.PartOf source) (hw : w.Lasts s) :
    (∃ s' e, w.poll part s = (s', .failed e) ∧ files.Blank s') ∨
      ∃ s' w', w.poll part s = (s', .pending w') ∧ files.Lags needed order s' ∧ w'.Lasts s' := by
  have hround := h.pollAll hfound hpart fun a ha => hw.columns (List.mem_map_of_mem ha)
  have hcolumns {s' : CardStore} {columns : List Awaited}
      (hall : s.pollAll part w.columns = (s', .ok columns)) :
      files.Lags needed order s' ∧ ({ w with columns } : Waiting).Lasts s' := by
    rcases hround with ⟨s₁, e, heq, -⟩ | ⟨s₁, as, heq, hlags, hstays, hloads, hleft⟩
    · cases heq.symm.trans hall
    · cases heq.symm.trans hall
      exact ⟨hlags, hw.of_stays hstays hloads hleft⟩
  -- the sorter is polled after the columns
  have hsorter {s' : CardStore} {columns : List Awaited}
      (hall : s.pollAll part w.columns = (s', .ok columns)) :
      files.Lags needed order (s'.poll part w.sorter) ∧
          ({ w with columns } : Waiting).Lasts (s'.poll part w.sorter) ∨
        files.Blank (s'.poll part w.sorter) ∧
          ∃ e, (s'.poll part w.sorter).result? w.sorter = some (.error e) := by
    obtain ⟨hlags, hlasts⟩ := hcolumns hall
    refine (hlags.poll hfound hpart w.sorter).imp_left fun ⟨hlags', hstays⟩ => ⟨hlags', ?_⟩
    exact hlasts.of_stays hstays rfl fun a ha _ _ => ha
  have hpolls := w.polls_poll part s
  generalize w.poll part s = r at hpolls ⊢
  cases hpolls with
  | failed hall =>
    rcases hround with ⟨s₁, e, heq, hblank⟩ | ⟨s₁, as, heq, -⟩
    · cases heq.symm.trans hall
      exact .inl ⟨_, _, rfl, hblank⟩
    · cases heq.symm.trans hall
  | @seen s' columns x hall hseen =>
    obtain ⟨hlags, hlasts⟩ := hcolumns hall
    obtain ⟨w', hpending, hlasts'⟩ := hlasts.settle (by simp [hseen]) x
    exact .inr ⟨s', w', hpending, hlags, hlasts'⟩
  | sorterFailed hall _ hresult =>
    rcases hsorter hall with ⟨-, hlasts⟩ | ⟨hblank, -⟩
    · exact absurd hresult (hlasts.sorter _)
    · exact .inl ⟨_, _, rfl, hblank⟩
  | @sorterEnded s' columns l hall _ hresult =>
    rcases hsorter hall with ⟨hlags, hlasts⟩ | ⟨-, e, he⟩
    · have hnot (hpends : (s'.poll part w.sorter).Pends w.sorter) : False :=
        nomatch hpends.result?_eq.symm.trans hresult
      obtain ⟨w', hpending, hlasts'⟩ := hlasts.settle (fun h => hnot h.2) (Waiting.sorterOf l)
      exact .inr ⟨_, w', hpending, hlags, hlasts'⟩
    · exact nomatch hresult.symm.trans he
  | pending hall _ hnone =>
    rcases hsorter hall with ⟨hlags, hlasts⟩ | ⟨-, e, he⟩
    · exact .inr ⟨_, _, rfl, hlags, hlasts⟩
    · exact nomatch hnone.symm.trans he

/-- Where no load goes on and something is not loaded, what is waited for goes on. -/
theorem lasts_begin (hc : s.Coherent) (hidle : s.Idle) (needed : List Property) (order : SortOrder)
    (hlacks : ¬∃ x, s.HasAll needed order x)
    (hbegin : (Waiting.begin s needed order).1.Coherent) :
    (Waiting.begin s needed order).2.Lasts (Waiting.begin s needed order).1 := by
  obtain ⟨-, hsorter, hcolumns⟩ := current_begin s needed order
  refine ⟨(Waiting.hasAll_or_goesOn_begin hc hidle needed order).resolve_left hlacks,
    fun {id} hid => ?_, hbegin.result?_ne_error hsorter⟩
  obtain ⟨a, ha, rfl⟩ := List.mem_map.1 hid
  obtain ⟨p, hp⟩ := hcolumns a ha
  exact hbegin.result?_ne_error hp

end FileSet

end CardSearch
