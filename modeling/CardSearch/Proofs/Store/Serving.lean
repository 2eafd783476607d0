import CardSearch.Proofs.Store.Files

/-!
# Loads over a source that has all files

A store whose loads are all of files that belong together keeps to them: no load fails, and what is
loaded is what the files hold, in whatever order their fetches end. Each time a load is polled the
source may have got some of the answers only; then nothing happens, or what happens with all of them.
-/

namespace CardSearch

/-- What a source has got, another has got too. -/
def Source.PartOf (part full : Source) : Prop := ∀ file, part file = none ∨ part file = full file

theorem Source.partOf_self (source : Source) : source.PartOf source := fun _ => .inr rfl

namespace Contents

variable {c c' : Contents} {source : Source} {id : LoadId} {t : LoadTask} {stage : LoadStage}
  {target : LoadTarget} {p : Property}

def HasLoaded (c : Contents) (p : Property) : Prop :=
  ∃ id, (.column p, id) ∈ c.current ∧ ∃ l, c.result? id = some (.ok l)

theorem hasLoaded_restages (hc : c.Linked) (hr : Restages c id t stage c')
    (hok : ∀ e, stage ≠ .finished (.error e)) :
    c'.HasLoaded p ↔ c.HasLoaded p ∨ t.target = .column p ∧ ∃ l, stage = .finished (.ok l) := by
  have hself := hc.current_of_pending hr.task hr.pending
  constructor
  · rintro ⟨j, hj, l, hl⟩
    have hj := ((hr.current_iff _).1 hj).1
    by_cases heq : j = id
    · subst heq
      obtain ⟨u, hu, htarget, -⟩ := hc.task_of_current hj
      cases hr.task.symm.trans hu
      exact .inr ⟨htarget, l, hr.stage_of_result hl⟩
    · rw [hr.result_eq, if_neg heq] at hl
      exact .inl ⟨j, hj, l, hl⟩
  · rintro (⟨j, hj, l, hl⟩ | ⟨htarget, l, rfl⟩)
    · exact ⟨j, (hr.current_iff _).2 ⟨hj, fun e he => absurd he (hok e)⟩, l,
        hr.to_extends.result_eq hl⟩
    · refine ⟨id, (hr.current_iff _).2 ⟨htarget ▸ hself, fun e he => by cases he⟩, l, ?_⟩
      rw [hr.result_eq, if_pos rfl]
      rfl

theorem hasLoaded_requests (hc : c.Linked) (h : c.Requests target c' id) :
    c'.HasLoaded p ↔ c.HasLoaded p := by
  constructor
  · rintro ⟨j, hj, l, hl⟩
    rcases current_of_requests hc h hj with ⟨hj, hsame⟩ | ⟨rfl, hnone | ⟨hname, -⟩⟩
    · exact ⟨j, hj, l, hsame.symm.trans hl⟩
    · rw [hnone] at hl
      cases hl
    · cases hname
  · rintro ⟨j, hj, l, hl⟩
    exact ⟨j, (mem_of_requests h).2 _ hj, l, (extends_of_requests h).result_eq hl⟩

end Contents

namespace CardStore

/-- Polling a load does something only where it has not ended. -/
theorem exists_pending_or_poll_eq (s : CardStore) (source : Source) (id : LoadId) :
    (∃ t, s.contents.tasks[id]? = some t ∧ t.result? = none) ∨ s.poll source id = s := by
  by_cases hended : ∀ t, s.tasks[id]? = some t → t.result? ≠ none
  · exact .inr (poll_eq_self source hended)
  · obtain ⟨t, ht, hpending⟩ : ∃ t, s.tasks[id]? = some t ∧ t.result? = none := by simpa using hended
    exact .inl ⟨t, ht, hpending⟩

/-- A file of the creation time of a store is taken as one of its snapshot. -/
theorem checkSnapshot_eq {s : CardStore} {time : UInt64} (h : s.contents.FixesTime time) :
    s.checkSnapshot time = ({ s with creationTime? := some time }, .ok ()) := by
  rcases h with hnone | hsome
  · have hnone : s.creationTime? = none := hnone
    rw [checkSnapshot, hnone]
  · have hsome : s.creationTime? = some time := hsome
    rw [checkSnapshot, hsome]
    simp [← hsome]

/-- Polling a load over a part of a source does what it does over the whole, unless it is the fetch of
this load that has got no answer. -/
theorem poll_of_partOf {part full : Source} (h : part.PartOf full) (s : CardStore) (id : LoadId) :
    s.poll part id = s.poll full id ∨ s.poll part id = s ∧
      ∃ t, s.tasks[id]? = some t ∧ t.stage = .fetching ∧ part t.file = none := by
  unfold poll
  cases ht : s.tasks[id]? with
  | none => exact .inl rfl
  | some t =>
    dsimp only
    cases hstage : t.stage with
    | finished r => exact .inl rfl
    | requested => exact .inl rfl
    | fetching =>
      rcases h t.file with hnone | hsame
      · rw [hnone]
        exact .inr ⟨rfl, t, rfl, hstage, hnone⟩
      · rw [hsame]
        exact .inl rfl

end CardStore

namespace FileSet

open CardStore Contents

variable {files : FileSet} {source part : Source} {needed : List Property} {order : SortOrder}
  {s s' : CardStore} {id : LoadId} {t : LoadTask}

/-- A store whose current loads are all of files that belong together and among those that are asked
for. None of them has failed, and the catalog is what has been loaded. -/
structure Serves (files : FileSet) (needed : List Property) (order : SortOrder) (s : CardStore) :
    Prop where
  valid : ∃ fetched, s.contents.Valid fetched
  named : s.NamesFiles
  time : s.contents.FixesTime files.time
  asked {target : LoadTarget} {id : LoadId} : (target, id) ∈ s.contents.current →
    target.AskedFor needed order
  result {target : LoadTarget} {id : LoadId} {r : Except LoadError Loaded} :
    (target, id) ∈ s.contents.current → s.result? id = some r → r = .ok (target.gives files.sorter)
  column (q : Property) (column : Array Values) : s.contents.catalog.columns.get? q = some column ↔
    column = files.column q ∧ s.contents.HasLoaded q.source
  length (n : Nat) : s.contents.catalog.length? = some n ↔
    n = files.length ∧ ∃ p, s.contents.HasLoaded p

theorem Serves.linked (h : files.Serves needed order s) : s.contents.Linked := by
  obtain ⟨fetched, hvalid⟩ := h.valid
  exact hvalid.toLinked

/-- A store with nothing loaded is one of whatever files. -/
theorem serves_start (files : FileSet) (needed : List Property) (order : SortOrder)
    (refetchInterval : Nat) : files.Serves needed order { refetchInterval } where
  valid := ⟨fun _ => none, (History.sound_start refetchInterval).valid⟩
  named := (History.sound_start refetchInterval).named
  time := .inl rfl
  asked := nofun
  result := nofun
  column q column := by
    refine ⟨fun h => absurd ((PropertyMap.get?_empty q).symm.trans h) nofun, ?_⟩
    rintro ⟨-, j, hj, -⟩
    cases hj
  length n := by
    refine ⟨fun h => (by cases h), ?_⟩
    rintro ⟨-, p, j, hj, -⟩
    cases hj

theorem Serves.of_contents_eq (h : files.Serves needed order s) (heq : s'.contents = s.contents) :
    files.Serves needed order s' where
  valid := heq ▸ h.valid
  named := by
    have htasks : s'.tasks = s.tasks := congrArg Contents.tasks heq
    unfold NamesFiles
    rw [htasks]
    exact h.named
  time := heq ▸ h.time
  asked hid := h.asked (heq ▸ hid)
  result {target id r} hid hr := by
    have hresult : s'.result? id = s.result? id := congrArg (Contents.result? · id) heq
    exact h.result (heq ▸ hid) (hresult ▸ hr)
  column := heq ▸ h.column
  length := heq ▸ h.length

/-- Asking for what is loaded for the properties that are needed keeps the store one of the
files. -/
theorem Serves.request (h : files.Serves needed order s) (hheld : files.HeldBy source needed order)
    {target : LoadTarget} (htarget : target.AskedFor needed order) :
    files.Serves needed order (s.request target).1 := by
  have hrequest := requests_request s target
  obtain ⟨fetched, hvalid⟩ := h.valid
  have hvalid' := hvalid.requests source hrequest fun p hp => by
    subst hp
    exact Property.LoadedFor.isStored htarget
  have hloaded (p : Property) := hasLoaded_requests (p := p) h.linked hrequest
  obtain ⟨hcatalog, htime⟩ := catalog_of_requests hrequest
  refine ⟨⟨_, hvalid'⟩, h.named.request target, ?_, fun {other j} hj => ?_,
    fun {other j r} hj hr => ?_, fun q column => ?_, fun n => ?_⟩
  · unfold FixesTime
    rw [htime]
    exact h.time
  · rcases current_of_requests h.linked hrequest hj with ⟨hj, -⟩ | ⟨rfl, -⟩
    · exact h.asked hj
    · exact htarget
  · have hr : (s.request target).1.contents.result? j = some r := hr
    rcases current_of_requests h.linked hrequest hj with ⟨hj, hsame⟩ | ⟨rfl, hnone | ⟨hname, hsome⟩⟩
    · exact h.result hj (hsame.symm.trans hr)
    · rw [hnone] at hr
      cases hr
    · -- the order that needs no file comes with the sorter by name
      rw [hname] at htarget ⊢
      obtain rfl : .name = order := htarget
      rw [hheld.byName rfl]
      exact Option.some.inj (hr.symm.trans hsome)
  · rw [hcatalog, hloaded]
    exact h.column q column
  · simp only [hcatalog, hloaded]
    exact h.length n

/-- What polling a load that has not ended makes of the contents: the load comes one step on, to an
end that is the right one. -/
structure Advances (files : FileSet) (needed : List Property) (c : Contents) (id : LoadId)
    (t : LoadTask) (stage : LoadStage) (c' : Contents) : Prop extends Restages c id t stage c' where
  stage_eq : t.stage = .requested ∧ stage = .fetching ∨
    t.stage = .fetching ∧ stage = .finished (.ok (t.target.gives files.sorter))
  fixesTime : c.FixesTime files.time → c'.FixesTime files.time
  catalog : c'.catalog = c.catalog ∧ (∀ p l, t.target = .column p → stage ≠ .finished (.ok l)) ∨
    ∃ p, p.LoadedFor needed ∧ t.target = .column p ∧ stage = .finished (.ok .column) ∧
      c'.catalog = c.catalog.putStored p (files.values p).toArray

/-- Every file is there and belongs to the others, so polling a load brings it one step on. -/
theorem FoundIn.advances (h : files.FoundIn source needed order)
    (htime : s.contents.FixesTime files.time) (ht : s.contents.tasks[id]? = some t)
    (hpending : t.result? = none) (hasked : t.target.AskedFor needed order)
    (hfile : t.target.file? = some t.file) :
    ∃ stage, files.Advances needed s.contents id t stage (s.poll source id).contents := by
  have hpolled : s.tasks[id]? = some t := ht
  rw [CardStore.poll, hpolled]
  dsimp only
  cases hstage : t.stage with
  | finished r => simp [LoadTask.result?, hstage] at hpending
  | requested =>
    have hr : Restages s.contents id t _ (s.contents.withStage id t .fetching) :=
      restages_withStage ht hpending rfl rfl rfl fun e he => by cases he
    exact ⟨_, hr, .inl ⟨hstage, rfl⟩, fun htime => htime, .inl ⟨rfl, fun p l _ hr => by cases hr⟩⟩
  | fetching =>
    dsimp only
    cases htarget : t.target with
    | column p =>
      rw [htarget] at hasked hfile
      obtain ⟨bytes, data, hsource, hread, hdecode⟩ := h.file hasked
      have hstored := Property.LoadedFor.isStored hasked
      have hfile : t.file = p.file := (Option.some.inj hfile).symm
      have hinsert (c : Catalog) :
          c.insert p data = .ok (c.putStored p (files.values p).toArray) := by
        rw [Catalog.insert, if_pos hstored, hdecode]
      rw [hfile, hsource]
      simp only [finish, accept, htarget, hread, acceptPayload, checkSnapshot_eq htime, hinsert]
      let c : Contents := { s.contents with
        catalog := s.catalog.putStored p (files.values p).toArray
        creationTime? := some files.time }
      have hr : Restages s.contents id t _ (c.withStage id t (.finished (.ok .column))) :=
        restages_withStage ht hpending rfl rfl rfl fun e he => by cases he
      exact ⟨_, hr, .inr ⟨hstage, by rw [htarget]; rfl⟩, fun _ => .inr rfl,
        .inr ⟨p, hasked, htarget, rfl, rfl⟩⟩
    | sorter other =>
      rw [htarget] at hasked hfile
      obtain rfl : other = order := hasked
      obtain ⟨bytes, index, hsource, hread, hindexTime, hindex⟩ := h.index hfile
      have hcheck := checkSnapshot_eq (hindexTime ▸ htime)
      rw [hsource]
      simp only [finish, accept, htarget, hread, acceptIndex, hcheck, hindex]
      let c : Contents := { s.contents with creationTime? := some index.creationTime }
      have hr : Restages s.contents id t _
          (c.withStage id t (.finished (.ok (.sorter files.sorter)))) :=
        restages_withStage ht hpending rfl rfl rfl fun e he => by cases he
      exact ⟨_, hr, .inr ⟨hstage, by rw [htarget]; rfl⟩, fun _ => .inr (congrArg some hindexTime),
        .inl ⟨rfl, fun p l hcolumn => by rw [htarget] at hcolumn; cases hcolumn⟩⟩

theorem Serves.advances (h : files.Serves needed order s) (hheld : files.HeldBy source needed order)
    (ht : s.contents.tasks[id]? = some t) (hpending : t.result? = none) :
    ∃ stage, files.Advances needed s.contents id t stage (s.poll source id).contents :=
  hheld.foundIn.advances h.time ht hpending (h.asked (h.linked.current_of_pending ht hpending))
    ((h.named id t ht).resolve_right fun hnone => hnone.2.2 hpending)

namespace Advances

variable {c c' : Contents} {stage : LoadStage}

theorem gives (h : files.Advances needed c id t stage c') {r : Except LoadError Loaded}
    (hr : stage = .finished r) : r = .ok (t.target.gives files.sorter) := by
  subst hr
  rcases h.stage_eq with ⟨-, heq⟩ | ⟨-, heq⟩
  · cases heq
  · exact LoadStage.finished.inj heq

theorem mem_current_iff (h : files.Advances needed c id t stage c') (y : LoadTarget × LoadId) :
    y ∈ c'.current ↔ y ∈ c.current :=
  (h.current_iff y).trans (and_iff_left fun e he => by cases h.gives he)

/-- What has been loaded after a load was polled, and what the catalog has of it. -/
theorem hasLoaded_iff (h : files.Advances needed c id t stage c') (hc : c.Linked) :
    (c'.catalog = c.catalog ∧ ∀ p, c'.HasLoaded p ↔ c.HasLoaded p) ∨
      ∃ p, p.LoadedFor needed ∧ c'.catalog = c.catalog.putStored p (files.values p).toArray ∧
        ∀ q, c'.HasLoaded q ↔ c.HasLoaded q ∨ q = p := by
  have hloaded (q : Property) := hasLoaded_restages (p := q) hc h.toRestages fun e he => by
    cases h.gives he
  rcases h.catalog with ⟨hcatalog, hother⟩ | ⟨p, hasked, htarget, rfl, hcatalog⟩
  · refine .inl ⟨hcatalog, fun p => (hloaded p).trans (or_iff_left ?_)⟩
    rintro ⟨htarget, l, hl⟩
    exact hother p l htarget hl
  · refine .inr ⟨p, hasked, hcatalog, fun q => (hloaded q).trans (or_congr_right ?_)⟩
    rw [htarget, LoadTarget.column.injEq]
    exact ⟨fun hq => hq.1.symm, fun hq => ⟨hq.symm, _, rfl⟩⟩

end Advances

theorem Serves.poll_full (h : files.Serves needed order s)
    (hheld : files.HeldBy source needed order) (id : LoadId) :
    files.Serves needed order (s.poll source id) := by
  rcases (s.exists_pending_or_poll_eq source id).symm with hsame | ⟨t, ht, hpending⟩
  · rwa [hsame]
  · obtain ⟨fetched, hvalid⟩ := h.valid
    have hvalid' := hvalid.polls (polls_poll s source id)
    have hnamed := h.named.poll source id
    obtain ⟨stage, hr⟩ := h.advances hheld ht hpending
    have hloaded := hr.hasLoaded_iff h.linked
    generalize s.poll source id = s' at *
    refine ⟨⟨_, hvalid'⟩, hnamed, hr.fixesTime h.time,
      fun {target j} hj => h.asked ((hr.mem_current_iff _).1 hj), fun {target j r} hj hresult => ?_,
      fun q column => ?_, fun n => ?_⟩
    · have hj := (hr.mem_current_iff _).1 hj
      have hresult : s'.contents.result? j = some r := hresult
      by_cases heq : j = id
      · subst heq
        obtain ⟨u, hu, rfl, -⟩ := h.linked.task_of_current hj
        cases ht.symm.trans hu
        exact hr.gives (hr.stage_of_result hresult)
      · rw [hr.result_eq, if_neg heq] at hresult
        exact h.result hj hresult
    · rcases hloaded with ⟨hcatalog, hsame⟩ | ⟨p, hasked, hcatalog, hmore⟩
      · rw [hcatalog, hsame]
        exact h.column q column
      · rw [hcatalog, hmore, Catalog.get?_putStored _ hasked.isStored]
        split
        · next hq =>
          subst hq
          simp [FileSet.column, eq_comm]
        · next hq => simpa [hq] using h.column q column
    · rcases hloaded with ⟨hcatalog, hsame⟩ | ⟨p, hasked, hcatalog, hmore⟩
      · simp only [hcatalog, hsame]
        exact h.length n
      · have hlength : s'.contents.catalog.length? = some files.length := by
          rw [hcatalog, ← hheld.size hasked, ← List.size_toArray]
          rfl
        rw [hlength, Option.some.injEq]
        exact ⟨fun heq => ⟨heq.symm, p, (hmore p).2 (.inr rfl)⟩, fun hn => hn.1.symm⟩

theorem Serves.poll (h : files.Serves needed order s) (hheld : files.HeldBy source needed order)
    (hpart : part.PartOf source) (id : LoadId) : files.Serves needed order (s.poll part id) := by
  rcases poll_of_partOf hpart s id with hsame | ⟨hsame, -⟩
  · rw [hsame]
    exact h.poll_full hheld id
  · rwa [hsame]

end FileSet

end CardSearch
