import CardSearch.Proofs.Store.Awaiting

/-!
# Generations of a store

A clearing begins a new generation. Whatever is loaded in a generation is of one snapshot; what was
asked for in an earlier one has no effect any more; and nothing is fetched twice in a generation
unless it failed.
-/

namespace CardSearch

namespace Contents

variable {c c' : Contents} {source : Source} {id j : LoadId} {target : LoadTarget}
  {startedIn : LoadId → Option Nat}

def Backed (c : Contents) : Prop := ∀ q column, c.catalog.columns.get? q = some column →
  ∃ id l, (.column q.source, id) ∈ c.current ∧ c.result? id = some (.ok l)

private theorem Backed.restages {t : LoadTask} {stage : LoadStage} (hc : c.Linked) (h : c.Backed)
    (hr : Restages c id t stage c')
    (hcolumns : ∀ q, c'.catalog.columns.get? q = c.catalog.columns.get? q ∨
      .column q.source = t.target ∧ ∃ l, stage = .finished (.ok l)) : c'.Backed := by
  have hself := hc.current_of_pending hr.task hr.pending
  intro q column hcolumn
  rcases hcolumns q with hsame | ⟨htarget, l, rfl⟩
  · obtain ⟨j, l, hj, hl⟩ := h q column (hsame ▸ hcolumn)
    have hne : j ≠ id := by
      rintro rfl
      have hpending : c.result? j = none := by
        rw [result?, hr.task]
        exact hr.pending
      rw [hpending] at hl
      cases hl
    refine ⟨j, l, (hr.current_iff _).2 ⟨hj, fun e _ htarget => hne ?_⟩, hr.to_extends.result_eq hl⟩
    exact hc.unique (htarget ▸ hj) hself
  · refine ⟨id, l, (hr.current_iff _).2 ⟨htarget ▸ hself, fun e he => by cases he⟩, ?_⟩
    rw [hr.result_eq, if_pos rfl]
    rfl

theorem Backed.polls (hc : c.Linked) (h : c.Backed) (hpoll : c.Polls source id c') : c'.Backed := by
  cases hpoll with
  | same => exact h
  | fetching ht hpending | sorter ht hpending =>
    exact h.restages hc (restages_withStage ht hpending rfl rfl rfl nofun) fun q => .inl rfl
  | failed ht hpending hc₁ =>
    rcases hc₁ with rfl | ⟨time, -, rfl⟩ <;>
      exact h.restages hc (restages_failed ht hpending rfl rfl rfl) fun q => .inl rfl
  | cleared ht hpending =>
    exact fun q column hcolumn => absurd ((PropertyMap.get?_empty q).symm.trans hcolumn) nofun
  | @column t p bytes payload catalog ht hpending htarget hanswer hread hfix hinsert =>
    have hstored := hc.stored (htarget ▸ hc.current_of_pending ht hpending)
    obtain ⟨values, -, -, hcatalog⟩ := Catalog.insert_eq_ok hinsert
    refine h.restages hc (restages_withStage ht hpending rfl rfl rfl nofun) fun q => ?_
    by_cases hq : q.source = p
    · exact .inr ⟨by rw [hq, htarget], _, rfl⟩
    · refine .inl ?_
      change catalog.columns.get? q = _
      rw [hcatalog, Catalog.get?_putStored _ hstored, if_neg hq]

theorem Backed.requests (h : c.Backed) (hrequest : c.Requests target c' id) : c'.Backed := by
  have hext := extends_of_requests hrequest
  obtain ⟨-, hcurrent⟩ := mem_of_requests hrequest
  intro q column hcolumn
  have hbefore : c.catalog.columns.get? q = some column := by
    cases hrequest <;> exact hcolumn
  obtain ⟨j, l, hj, hl⟩ := h q column hbefore
  exact ⟨j, l, hcurrent _ hj, hext.result_eq hl⟩

def started (before after : Contents) (startedIn : LoadId → Option Nat) : LoadId → Option Nat :=
  fun id => if before.tasks.size ≤ id ∧ id < after.tasks.size then some before.generation
    else startedIn id

/-- How the loads of a store stand to the generations in which they were started. Those of earlier
generations have ended; those of this one are current unless they failed. -/
structure Dated (c : Contents) (startedIn : LoadId → Option Nat) : Prop where
  isSome_iff {id : LoadId} : (startedIn id).isSome ↔ id < c.tasks.size
  le {id : LoadId} {g : Nat} : startedIn id = some g → g ≤ c.generation
  of_current {target : LoadTarget} {id : LoadId} : (target, id) ∈ c.current →
    startedIn id = some c.generation
  ended {id : LoadId} {g : Nat} {t : LoadTask} : startedIn id = some g → g < c.generation →
    c.tasks[id]? = some t → t.result? ≠ none
  kept {id : LoadId} {t : LoadTask} : startedIn id = some c.generation →
    c.tasks[id]? = some t → (∀ e, t.result? ≠ some (.error e)) → (t.target, id) ∈ c.current
  failed {i j : LoadId} {g : Nat} {t u : LoadTask} : i < j → startedIn i = some g →
    startedIn j = some g → c.tasks[i]? = some t → c.tasks[j]? = some u → t.target = u.target →
    ∃ e, t.result? = some (.error e)

theorem size_of_polls (h : c.Polls source id c') : c'.tasks.size = c.tasks.size := by
  rcases h.cases with rfl | ⟨t, stage, h⟩ | ⟨t, e, ht, hpending, rfl⟩
  · rfl
  · rw [h.tasks_eq, Array.size_setIfInBounds]
  · simp [clearedBy, without, withStage, cleared]

theorem started_eq_self (h : c'.tasks.size = c.tasks.size) : started c c' startedIn = startedIn := by
  funext j
  rw [started, h, if_neg fun hj => Nat.not_lt.2 hj.1 hj.2]

theorem task_of_polls (h : c.Polls source id c') {t' : LoadTask} (ht' : c'.tasks[j]? = some t') :
    ∃ t, c.tasks[j]? = some t ∧ t'.target = t.target ∧ t'.file = t.file ∧
      (t.result? ≠ none → t'.result? = t.result?) := by
  have hj : j < c.tasks.size := size_of_polls h ▸ (Array.getElem?_eq_some_iff.1 ht').1
  have ht : c.tasks[j]? = some c.tasks[j] := Array.getElem?_eq_getElem hj
  obtain ⟨u, hu, htarget, hfile, hresult⟩ := (extends_of_polls h).task ht
  cases ht'.symm.trans hu
  exact ⟨_, ht, htarget, hfile, hresult⟩

theorem Dated.polls (hc : c.Linked) (h : c.Dated startedIn) (hpoll : c.Polls source id c') :
    c'.Dated startedIn := by
  have hgen := (extends_of_polls hpoll).generation_le
  have hsize := size_of_polls hpoll
  refine ⟨by rw [hsize]; exact h.isSome_iff, fun hj => Nat.le_trans (h.le hj) hgen, ?_, ?_, ?_, ?_⟩
  · intro target j hj
    rcases hpoll.cases with rfl | ⟨u, stage, hr⟩ | ⟨u, e, hu, hpending, rfl⟩
    · exact h.of_current hj
    · rw [hr.generation_eq]
      exact h.of_current ((hr.current_iff _).1 hj).1
    · exact absurd hj (not_mem_clearedBy _)
  · intro j g t' hj hg ht'
    obtain ⟨t, ht, -, -, hresult⟩ := task_of_polls hpoll ht'
    by_cases hold : g < c.generation
    · have hended := h.ended hj hold ht
      rwa [hresult hended]
    · -- the generation has ended in this step, and so have all its loads
      rcases hpoll.cases with rfl | ⟨u, stage, hr⟩ | ⟨u, e, hu, hpending, rfl⟩
      · exact absurd hg hold
      · exact absurd (hr.generation_eq ▸ hg) hold
      · rcases ended_of_clearedBy hu hpending ht' with ⟨-, hended⟩ | ⟨e, herror⟩
        · exact hended
        · simp [herror]
  · intro j t' hj ht' hok
    rcases hpoll.cases with rfl | ⟨u, stage, hr⟩ | ⟨u, e, hu, hpending, rfl⟩
    · exact h.kept hj ht' hok
    · rw [hr.generation_eq] at hj
      have hself := hc.current_of_pending hr.task hr.pending
      have hget := hr.getElem?_tasks j
      rw [ht'] at hget
      split at hget
      · next heq =>
        subst heq
        cases hget
        refine (hr.current_iff _).2 ⟨hself, fun e he => absurd ?_ (hok e)⟩
        rw [he]
        rfl
      · next hne =>
        have hkept := h.kept hj hget.symm hok
        exact (hr.current_iff _).2 ⟨hkept, fun e _ htarget => hne (hc.unique (htarget ▸ hkept) hself)⟩
    · exact absurd (h.le hj) (Nat.not_succ_le_self _)
  · intro i j g t' u' hij hi hj ht' hu' htarget
    obtain ⟨t, ht, htarget₁, -, hresult⟩ := task_of_polls hpoll ht'
    obtain ⟨u, hu, htarget₂, -, -⟩ := task_of_polls hpoll hu'
    obtain ⟨e, he⟩ := h.failed hij hi hj ht hu (htarget₁.symm.trans (htarget.trans htarget₂))
    exact ⟨e, (hresult (by simp [he])).trans he⟩

theorem Dated.requests (hc : c.Linked) (h : c.Dated startedIn) (hrequest : c.Requests target c' id) :
    c'.Dated (started c c' startedIn) := by
  cases hrequest with
  | current => rwa [started_eq_self rfl]
  | @started t hlookup htarget hresult =>
    have hget (j : LoadId) : (c.tasks.push t)[j]? =
        if j = c.tasks.size then some t else c.tasks[j]? := Array.getElem?_push
    have hold {j : LoadId} {u : LoadTask} (hj : j ≠ c.tasks.size)
        (hu : (c.tasks.push t)[j]? = some u) : c.tasks[j]? = some u :=
      ((hget j).trans (if_neg hj)).symm.trans hu
    have hnew {u : LoadTask} (hu : (c.tasks.push t)[c.tasks.size]? = some u) : u = t :=
      Option.some.inj (hu.symm.trans ((hget _).trans (if_pos rfl)))
    have hstarted (j : LoadId) : started c
        { c with tasks := c.tasks.push t, current := (target, c.tasks.size) :: c.current } startedIn j =
          if j = c.tasks.size then some c.generation else startedIn j := by
      simp only [started, Array.size_push]
      by_cases hj : j = c.tasks.size
      · rw [if_pos hj, if_pos ⟨Nat.le_of_eq hj.symm, Nat.lt_succ_of_le (Nat.le_of_eq hj)⟩]
      · rw [if_neg hj, if_neg fun h => hj (Nat.le_antisymm (Nat.le_of_lt_succ h.2) h.1)]
    constructor
    · intro j
      rw [hstarted, Array.size_push]
      split
      · next heq => simp [heq]
      · next hne =>
        rw [h.isSome_iff, Nat.lt_succ_iff_lt_or_eq]
        exact (or_iff_left hne).symm
    · intro j g hj
      rw [hstarted] at hj
      split at hj
      · exact Nat.le_of_eq (Option.some.inj hj).symm
      · exact h.le hj
    · intro target' j hj
      rw [hstarted]
      rcases hc.mem_started hj with heq | ⟨hj, hne⟩
      · exact if_pos (congrArg Prod.snd heq)
      · exact (if_neg hne).trans (h.of_current hj)
    · intro j g u hj hg hu
      rw [hstarted] at hj
      split at hj
      · exact absurd hg (Option.some.inj hj ▸ Nat.lt_irrefl _)
      · next hne => exact h.ended hj hg (hold hne hu)
    · intro j u hj hu hok
      rw [hstarted] at hj
      split at hj
      · next heq =>
        subst heq
        cases hnew hu
        exact htarget ▸ List.mem_cons_self
      · next hne => exact List.mem_cons_of_mem _ (h.kept hj (hold hne hu) hok)
    · intro i j g u v hij hi hj hu hv hsame
      have hj' : j < c.tasks.size + 1 := by
        simpa using (Array.getElem?_eq_some_iff.1 hv).1
      have hi' : i ≠ c.tasks.size := Nat.ne_of_lt (Nat.lt_of_lt_of_le hij (Nat.le_of_lt_succ hj'))
      rw [hstarted, if_neg hi'] at hi
      rw [hstarted] at hj
      have hu := hold hi' hu
      split at hj
      · -- a load is started only where none is current, so all before it have failed
        next heq =>
        subst heq
        cases hnew hv
        cases hj
        refine Classical.byContradiction fun hok => ?_
        have hkept := h.kept hi hu fun e he => hok ⟨e, he⟩
        rw [hsame, htarget] at hkept
        exact not_mem_of_lookup hlookup hkept
      · next hne => exact h.failed hij hi hj hu (hold hne hv) hsame

end Contents

private theorem Property.label_injective {p q : Property} (h : p.label = q.label) : p = q := by
  have hinv (p : Property) : ofLabel? p.label = some p := by cases p <;> decide
  exact Option.some.inj ((hinv p).symm.trans (h ▸ hinv q))

theorem LoadTarget.file_injective {target target' : LoadTarget}
    (h : target.file?.getD "" = target'.file?.getD "") : target = target' := by
  -- the files of columns end differently from those of sorters
  have hcolumn (p : Property) : p.file.toList.getLast? = some 'n' := by
    simp only [Property.file, String.toList_append, List.getLast?_append]
    rfl
  have hsorter (order : SortOrder) : (order.file?.getD "").toList.getLast? ≠ some 'n' := by
    cases order <;> decide
  cases target with
  | column p =>
    cases target' with
    | column q =>
      have hlabel : "card_" ++ p.label = "card_" ++ q.label := (String.append_left_inj _).1 h
      exact congrArg column (Property.label_injective ((String.append_right_inj _).1 hlabel))
    | sorter order =>
      have h : p.file = order.file?.getD "" := h
      exact absurd (h ▸ hcolumn p) (hsorter order)
  | sorter order =>
    cases target' with
    | column q =>
      have h : order.file?.getD "" = q.file := h
      exact absurd (h ▸ hcolumn q) (hsorter order)
    | sorter order' => cases order <;> cases order' <;> first | rfl | exact absurd h (by decide)

namespace CardStore

variable {s : CardStore} {source : Source} {id : LoadId}

def NamesFiles (s : CardStore) : Prop :=
  ∀ (id : LoadId) (t : LoadTask), s.tasks[id]? = some t →
    t.target.file? = some t.file ∨ t.target.file? = none ∧ t.file = "" ∧ t.result? ≠ none

theorem NamesFiles.file_eq (h : s.NamesFiles) {t : LoadTask} (ht : s.tasks[id]? = some t) :
    t.file = t.target.file?.getD "" := by
  rcases h id t ht with hfile | ⟨hfile, hempty, -⟩
  · simp [hfile]
  · simp [hfile, hempty]

theorem NamesFiles.poll (h : s.NamesFiles) (source : Source) (id : LoadId) :
    (s.poll source id).NamesFiles := by
  intro j t' ht'
  obtain ⟨t, ht, htarget, hfile, hresult⟩ := Contents.task_of_polls (polls_poll s source id) ht'
  rw [hfile, htarget]
  exact (h j t ht).imp_right fun ⟨hnone, hempty, hended⟩ => ⟨hnone, hempty, by rwa [hresult hended]⟩

theorem NamesFiles.request (h : s.NamesFiles) (target : LoadTarget) :
    (s.request target).1.NamesFiles := by
  unfold CardStore.request
  split
  · exact h
  · intro j t ht
    have ht : (s.tasks.push _)[j]? = some t := ht
    rw [Array.getElem?_push] at ht
    split at ht
    · cases ht
      cases target with
      | column p => exact .inl rfl
      | sorter order =>
        cases order with
        | name => exact .inr ⟨rfl, rfl, nofun⟩
        | cmc | releasedAt => exact .inl rfl
    · exact h j t ht

theorem fetches_poll (s : CardStore) (source : Source) (id : LoadId) :
    (s.poll source id).fetches = s.fetches ∨ ∃ t, s.tasks[id]? = some t ∧ t.result? = none ∧
      (s.poll source id).fetches = s.fetches.push (t.file, t.reload) := by
  unfold poll
  split
  · exact .inl rfl
  · next t ht =>
    split
    · exact .inl rfl
    · next hstage => exact .inr ⟨t, ht, by simp [LoadTask.result?, hstage], rfl⟩
    · split
      · exact .inl rfl
      · have huntouched : Untouched CardStore.fetches :=
          ⟨fun _ _ _ => rfl, fun _ => rfl, fun _ _ => rfl, fun _ _ => rfl, fun _ _ => rfl,
            fun _ _ => rfl⟩
        exact .inl (huntouched.finish ..)

/-- Polling a load that has ended does nothing. -/
theorem poll_eq_self (source : Source) (h : ∀ t, s.tasks[id]? = some t → t.result? ≠ none) :
    s.poll source id = s := by
  unfold poll
  split
  · rfl
  · next t ht =>
    have hended := h t ht
    split
    · rfl
    · next hstage => simp [LoadTask.result?, hstage] at hended
    · next hstage => simp [LoadTask.result?, hstage] at hended

end CardStore

/-- Something that happens to a store: a load of a property or of a sorter is asked for, a load is
polled while the source has some answers, or time passes. -/
inductive StoreStep
  | property (p : Property)
  | sorter (order : SortOrder)
  | poll (source : Source) (id : LoadId)
  | wait (time : Nat)

def StoreStep.source : StoreStep → Source
  | poll source _ => source
  | _ => fun _ => none

/-- A store. For each load it is noted in which generation it was started and what its fetch gave. -/
structure History where
  store : CardStore
  startedIn : LoadId → Option Nat := fun _ => none
  fetched : Fetched := fun _ => none

namespace History

open CardStore Contents

/-- Nothing has happened yet. -/
def start (refetchInterval : Nat) : History where
  store := { refetchInterval }

def act (h : History) : StoreStep → CardStore
  | .property p => (h.store.requestProperty p).1
  | .sorter order => (h.store.requestSorter order).1
  | .poll source id => h.store.poll source id
  | .wait time => { h.store with clock := h.store.clock + time }

def step (h : History) (x : StoreStep) : History where
  store := h.act x
  startedIn := started h.store.contents (h.act x).contents h.startedIn
  fetched := recorded x.source h.store.contents (h.act x).contents h.fetched

def run (h : History) (steps : List StoreStep) : History := steps.foldl step h

structure Sound (h : History) : Prop where
  valid : h.store.contents.Valid h.fetched
  backed : h.store.contents.Backed
  dated : h.store.contents.Dated h.startedIn
  named : h.store.NamesFiles

theorem sound_start (refetchInterval : Nat) : (start refetchInterval).Sound where
  valid := ⟨⟨nofun, nofun, nofun, nofun⟩, nofun, nofun, nofun⟩
  backed := fun q column hcolumn => absurd ((PropertyMap.get?_empty q).symm.trans hcolumn) nofun
  dated := ⟨by simp [start, contents], nofun, nofun, nofun, nofun, nofun⟩
  named := fun _ _ ht => by cases ht

/-- What is true of asking for any target is true of asking for that of a property. -/
theorem Sound.request {h : History} {x : StoreStep} (hsound : h.Sound) (target : LoadTarget)
    (hact : h.act x = (h.store.request target).1)
    (hstored : ∀ p, target = .column p → p.isStored = true) : (h.step x).Sound := by
  have hrequest := requests_request h.store target
  unfold step
  rw [hact]
  exact ⟨hsound.valid.requests _ hrequest hstored, hsound.backed.requests hrequest,
    hsound.dated.requests hsound.valid.toLinked hrequest, hsound.named.request target⟩

theorem sound_step {h : History} (hsound : h.Sound) (x : StoreStep) : (h.step x).Sound := by
  cases x with
  | property p =>
    obtain ⟨q, -, htarget, hstored⟩ := targetOf_spec hsound.valid.toLinked p
    refine hsound.request (h.store.targetOf p) rfl fun p' hp' => ?_
    rw [htarget] at hp'
    cases hp'
    exact hstored
  | sorter order => exact hsound.request (.sorter order) rfl nofun
  | poll source id =>
    have hpoll := polls_poll h.store source id
    have hstarted : (h.step (.poll source id)).startedIn = h.startedIn :=
      started_eq_self (size_of_polls hpoll)
    exact ⟨hsound.valid.polls hpoll, hsound.backed.polls hsound.valid.toLinked hpoll,
      hstarted ▸ hsound.dated.polls hsound.valid.toLinked hpoll, hsound.named.poll source id⟩
  | wait time =>
    have hfetched : (h.step (.wait time)).fetched = h.fetched := by
      have hcontents : (h.act (.wait time)).contents = h.store.contents := rfl
      simp only [step, hcontents, recorded_self]
    have hstarted : (h.step (.wait time)).startedIn = h.startedIn := started_eq_self rfl
    exact ⟨hfetched ▸ hsound.valid, hsound.backed, hstarted ▸ hsound.dated, hsound.named⟩

private theorem sound_run {h : History} (hsound : h.Sound) (steps : List StoreStep) :
    (h.run steps).Sound := by
  induction steps generalizing h with
  | nil => exact hsound
  | cons x steps ih => exact ih (sound_step hsound x)

/-- What a store promises about its snapshot, its clearings and its fetches. -/
structure Agrees (h : History) : Prop where
  /-- Every column was given by a load of this generation, whose payload carries the creation time
  of the store. -/
  column {q : Property} {column : Array Values} :
    h.store.catalog.columns.get? q = some column → ∃ id time,
      (.column q.source, id) ∈ h.store.current ∧ h.startedIn id = some h.store.generation ∧
      h.store.contents.Gave h.fetched id q time ∧ h.store.creationTime? = some time
  /-- Every sorter that has an index carries the creation time of the store. -/
  sorter {order : SortOrder} {id : LoadId} {sorter : Sorter} {time : UInt64} :
    (.sorter order, id) ∈ h.store.current → h.store.result? id = some (.ok (.sorter sorter)) →
    sorter.creationTime? = some time → h.store.creationTime? = some time
  /-- A load that was started before a clearing does nothing to the store after it. -/
  overtaken {id : LoadId} {g : Nat} (source : Source) :
    h.startedIn id = some g → g < h.store.generation → h.store.poll source id = h.store
  /-- A generation ends when polling a load leaves nothing that is loaded, not even by that load. -/
  clears (source : Source) (id : LoadId) :
    (h.store.poll source id).generation = h.store.generation ∨
      (h.store.poll source id).generation = h.store.generation + 1 ∧
      (h.store.poll source id).catalog = ∅ ∧ (h.store.poll source id).creationTime? = none ∧
      (h.store.poll source id).current = []
  /-- Of two loads of one target in one generation, the earlier has failed. -/
  failed {i j : LoadId} {g : Nat} {t u : LoadTask} : i < j → h.startedIn i = some g →
    h.startedIn j = some g → h.store.tasks[i]? = some t → h.store.tasks[j]? = some u →
    t.target = u.target → ∃ e, t.result? = some (.error e)
  /-- Where polling a load starts to fetch a file, the load is of this generation, and all others
  of that file in this generation have failed. -/
  fetch (source : Source) (id : LoadId) :
    (h.store.poll source id).fetches = h.store.fetches ∨ ∃ t, h.store.tasks[id]? = some t ∧
      t.target.file? = some t.file ∧ h.startedIn id = some h.store.generation ∧
      (h.store.poll source id).fetches = h.store.fetches.push (t.file, t.reload) ∧
      ∀ j u, j ≠ id → h.startedIn j = some h.store.generation → h.store.tasks[j]? = some u →
        u.file = t.file → ∃ e, u.result? = some (.error e)

private theorem Sound.agrees {h : History} (hsound : h.Sound) : h.Agrees where
  column {q column} hcolumn := by
    obtain ⟨id, l, hid, hl⟩ := hsound.backed q column hcolumn
    obtain ⟨time, htime, hgave⟩ := hsound.valid.column hid hl
    exact ⟨id, time, hid, hsound.dated.of_current hid, hgave q rfl, htime⟩
  sorter hid hl htime := hsound.valid.sorter hid hl htime
  overtaken source hid hg := poll_eq_self source fun t ht => hsound.dated.ended hid hg ht
  clears source id := by
    rcases (polls_poll h.store source id).cases with hsame | ⟨t, stage, hr⟩ | ⟨t, e, -, -, hclear⟩
    · exact .inl (congrArg Contents.generation hsame)
    · exact .inl hr.generation_eq
    · exact .inr ⟨congrArg Contents.generation hclear, congrArg Contents.catalog hclear,
        congrArg Contents.creationTime? hclear, congrArg Contents.current hclear⟩
  failed hij hi hj ht hu htarget := hsound.dated.failed hij hi hj ht hu htarget
  fetch source id := by
    refine (fetches_poll h.store source id).imp_right fun ⟨t, ht, hpending, hfetches⟩ => ?_
    have hlinked := hsound.valid.toLinked
    have hself := hlinked.current_of_pending ht hpending
    refine ⟨t, ht, ?_, hsound.dated.of_current hself, hfetches, fun j u hj hstarted hu hsame => ?_⟩
    · exact (hsound.named id t ht).resolve_right fun ⟨_, _, hended⟩ => hended hpending
    · rw [hsound.named.file_eq ht, hsound.named.file_eq hu] at hsame
      have htarget := LoadTarget.file_injective hsame
      refine Classical.byContradiction fun hok => hj ?_
      have hkept := hsound.dated.kept hstarted hu fun e he => hok ⟨e, he⟩
      exact hlinked.unique (htarget ▸ hkept) hself

/-- Whatever happens to a store, it agrees with itself on one snapshot. -/
theorem agrees_run (refetchInterval : Nat) (steps : List StoreStep) :
    ((start refetchInterval).run steps).Agrees :=
  (sound_run (sound_start refetchInterval) steps).agrees

end History

end CardSearch
