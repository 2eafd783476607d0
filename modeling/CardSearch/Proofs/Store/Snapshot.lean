import CardSearch.Proofs.Catalog.Columns
import CardSearch.Proofs.Store.Loads

/-!
# The snapshot of a store

The columns of a store stand for loads that ended well since the last clearing, all of them with
files of one creation time. Each step of the store keeps it that way; so does any number of steps,
whoever asks for loads and whoever polls them.
-/

namespace CardSearch

abbrev Fetched := LoadId → Option (List UInt8)

namespace Contents

variable {c c' c'' : Contents} {fetched : Fetched} {source : Source} {id j : LoadId}

/-- A load gave the column of a property: its payload carries a creation time, and the catalog has
the column as the payload has it. -/
def Gave (c : Contents) (fetched : Fetched) (id : LoadId) (q : Property) (time : UInt64) : Prop :=
  c.result? id = some (.ok .column) ∧ ∃ bytes payload values, fetched id = some bytes ∧
    Payload.read? bytes = some payload ∧ payload.creationTime = time ∧
    q.source.decode payload.data = .ok values ∧
    c.catalog.columns.get? q = some (q.columnOf values.toArray)

structure Valid (c : Contents) (fetched : Fetched) : Prop extends Linked c where
  column {p : Property} {id : LoadId} {l : Loaded} : (.column p, id) ∈ c.current →
    c.result? id = some (.ok l) →
    ∃ time, c.creationTime? = some time ∧ ∀ q, q.source = p → c.Gave fetched id q time
  sorter {order : SortOrder} {id : LoadId} {sorter : Sorter} {time : UInt64} :
    (.sorter order, id) ∈ c.current → c.result? id = some (.ok (.sorter sorter)) →
    sorter.creationTime? = some time → c.creationTime? = some time
  order {id : LoadId} {t : LoadTask} {order : SortOrder} {l : Loaded} : c.tasks[id]? = some t →
    t.target = .sorter order → t.result? = some (.ok l) →
    ∃ sorter, l = .sorter sorter ∧ sorter.order? = some order

/-- What the fetches gave, after steps of the store with answers of one source. -/
def recorded (source : Source) (before after : Contents) (fetched : Fetched) : Fetched := fun id =>
  match after.tasks[id]? with
  | some t =>
    if (before.result? id).isNone && t.result?.isSome then
      match source t.file with
      | some (.ok bytes) => some bytes
      | _ => none
    else fetched id
  | none => fetched id

theorem recorded_of_ended (h : c.result? id ≠ none) :
    recorded source c c' fetched id = fetched id := by
  unfold recorded
  cases hr : c.result? id with
  | none => exact absurd hr h
  | some r => cases c'.tasks[id]? <;> simp

theorem recorded_self (c : Contents) : recorded source c c fetched = fetched := by
  funext id
  unfold recorded result?
  cases c.tasks[id]? with
  | none => rfl
  | some t => cases h : t.result? <;> simp [h]

/-- It does not matter whether what the fetches gave is noted after each of two steps or after
both. -/
theorem recorded_recorded (h : Extends c c') (h' : Extends c' c'') :
    recorded source c' c'' (recorded source c c' fetched) = recorded source c c'' fetched := by
  funext id
  cases hr : c'.result? id with
  | some r =>
    rw [recorded_of_ended (by simp [hr])]
    obtain ⟨t, ht, hresult⟩ := Option.bind_eq_some_iff.1 hr
    obtain ⟨t', ht', -, hfile, hsame⟩ := h'.task ht
    have hsame := hsame (by simp [hresult])
    simp [recorded, ht, ht', hfile, hsame]
  | none =>
    have hbefore : c.result? id = none := by
      cases hc : c.result? id with
      | none => rfl
      | some r => simp [h.result_eq hc] at hr
    have hfetched : recorded source c c' fetched id = fetched id := by
      unfold recorded
      cases ht : c'.tasks[id]? with
      | none => rfl
      | some t =>
        have : t.result? = none := by simpa [result?, ht] using hr
        simp [this]
    unfold recorded at *
    rw [hfetched]
    simp [hr, hbefore]

theorem Gave.of_extends {q : Property} {time : UInt64} (h : c.Gave fetched id q time)
    (hext : Extends c c') (hcolumn : c'.catalog.columns.get? q = c.catalog.columns.get? q) :
    c'.Gave (recorded source c c' fetched) id q time := by
  obtain ⟨hresult, bytes, payload, values, hbytes, hread, htime, hdecode, hget⟩ := h
  refine ⟨hext.result_eq hresult, bytes, payload, values, ?_, hread, htime, hdecode,
    hcolumn.trans hget⟩
  rw [recorded_of_ended (by simp [hresult]), hbytes]

section Step

variable {t : LoadTask} {stage : LoadStage} {e : LoadError}

/-- A store stays valid when a load comes to another stage, if one that ended well brought what it
was started for. -/
theorem Valid.restages (source : Source) (h : c.Valid fetched) (hr : Restages c id t stage c')
    (htime : ∀ time, c.creationTime? = some time → c'.creationTime? = some time)
    (hother : ∀ q, LoadTarget.column q.source ≠ t.target →
      c'.catalog.columns.get? q = c.catalog.columns.get? q)
    (hcolumn : ∀ p l, t.target = .column p → stage = .finished (.ok l) →
      ∃ time, c'.creationTime? = some time ∧
        ∀ q, q.source = p → c'.Gave (recorded source c c' fetched) id q time)
    (hsorter : ∀ order l, t.target = .sorter order → stage = .finished (.ok l) →
      ∃ sorter, l = .sorter sorter ∧ sorter.order? = some order ∧
        ∀ time, sorter.creationTime? = some time → c'.creationTime? = some time) :
    c'.Valid (recorded source c c' fetched) := by
  have hself := h.current_of_pending hr.task hr.pending
  refine ⟨hr.to_linked h.toLinked, ?_, ?_, ?_⟩
  · intro p j l hj hl
    have hj := ((hr.current_iff _).1 hj).1
    by_cases heq : j = id
    · subst heq
      obtain ⟨u, hu, htarget, -⟩ := h.task_of_current hj
      cases hr.task.symm.trans hu
      exact hcolumn p l htarget (hr.stage_of_result hl)
    · -- the column of another load is not touched, since the load is of another target
      rw [hr.result_eq, if_neg heq] at hl
      obtain ⟨time, hsome, hgave⟩ := h.column hj hl
      refine ⟨time, htime time hsome, fun q hq => ?_⟩
      refine (hgave q hq).of_extends hr.to_extends (hother q ?_)
      rw [hq]
      exact fun htarget => heq (h.unique (htarget ▸ hj) hself)
  · intro order j sorter time hj hl hsome
    have hj := ((hr.current_iff _).1 hj).1
    by_cases heq : j = id
    · subst heq
      obtain ⟨u, hu, htarget, -⟩ := h.task_of_current hj
      cases hr.task.symm.trans hu
      obtain ⟨sorter', hl', -, htimes⟩ := hsorter order _ htarget (hr.stage_of_result hl)
      cases hl'
      exact htimes time hsome
    · rw [hr.result_eq, if_neg heq] at hl
      exact htime time (h.sorter hj hl hsome)
  · intro j u order l hu horder hl
    by_cases heq : j = id
    · subst heq
      have hstage := hr.stage_of_result (Option.bind_eq_some_iff.2 ⟨u, hu, hl⟩)
      rw [hr.getElem?_tasks, if_pos rfl] at hu
      cases hu
      obtain ⟨sorter, hl, horder, -⟩ := hsorter order l horder hstage
      exact ⟨sorter, hl, horder⟩
    · rw [hr.getElem?_tasks, if_neg heq] at hu
      exact h.order hu horder hl

/-- Nothing that is current is left, so little has to hold. -/
theorem Valid.clearedBy (h : c.Valid fetched) (ht : c.tasks[id]? = some t)
    (hpending : t.result? = none) (fetched' : Fetched) : (c.clearedBy id t e).Valid fetched' := by
  refine ⟨linked_clearedBy ht hpending, ?_, ?_, ?_⟩
  · intro p j l hj
    exact absurd hj (not_mem_clearedBy _)
  · intro order j sorter time hj
    exact absurd hj (not_mem_clearedBy _)
  · intro j u order l hu horder hl
    rcases ended_of_clearedBy ht hpending hu with ⟨hv, -⟩ | ⟨e, herror⟩
    · exact h.order hv horder hl
    · rw [herror] at hl
      cases hl

end Step

private theorem FixesTime.eq {time time' : UInt64} (h : c.FixesTime time)
    (h' : c.creationTime? = some time') : time = time' := by
  rcases h with h | h <;> rw [h'] at h
  · cases h
  · exact (Option.some.inj h).symm

private theorem order?_ofIndex {order : SortOrder} {index : SortIndex} {sorter : Sorter}
    (h : Sorter.ofIndex order index = .ok sorter) :
    sorter.order? = some order ∧ sorter.creationTime? = some index.creationTime := by
  unfold Sorter.ofIndex at h
  split at h
  · next hlabel =>
    cases h
    refine ⟨?_, rfl⟩
    change SortOrder.ofLabel? index.order = some order
    rw [hlabel]
    cases order <;> rfl
  · cases h

/-- A load that has just ended well gave the columns that its payload has. -/
theorem gave_of_finished {t : LoadTask} {c₁ : Contents} {bytes : List UInt8} {payload : Payload}
    {values : List Values} {q : Property} (ht : c.tasks[id]? = some t) (hpending : t.result? = none)
    (htasks : c₁.tasks = c.tasks) (hanswer : source t.file = some (.ok bytes))
    (hread : Payload.read? bytes = some payload) (hdecode : q.source.decode payload.data = .ok values)
    (hget : c₁.catalog.columns.get? q = some (q.columnOf values.toArray)) :
    (c₁.withStage id t (.finished (.ok .column))).Gave
      (recorded source c (c₁.withStage id t (.finished (.ok .column))) fetched) id q
      payload.creationTime := by
  have hid := (Array.getElem?_eq_some_iff.1 ht).1
  have htask : (c₁.withStage id t (.finished (.ok .column))).tasks[id]? =
      some { t with stage := .finished (.ok .column) } := by
    rw [withStage, htasks, Array.getElem?_setIfInBounds_self_of_lt hid]
  have hbefore : c.result? id = none := by
    rw [result?, ht]
    exact hpending
  refine ⟨by rw [result?, htask]; rfl, bytes, payload, values, ?_, hread, rfl, hdecode, hget⟩
  simp [recorded, htask, hbefore, hanswer, LoadTask.result?]

theorem Valid.polls (h : c.Valid fetched) (hpoll : c.Polls source id c') :
    c'.Valid (recorded source c c' fetched) := by
  cases hpoll with
  | same =>
    rw [recorded_self]
    exact h
  | fetching ht hpending =>
    exact h.restages source (restages_withStage ht hpending rfl rfl rfl nofun)
      (fun _ hsome => hsome) (fun _ _ => rfl) (fun _ _ _ he => by cases he)
      (fun _ _ _ he => by cases he)
  | @failed t c₁ e ht hpending hc₁ =>
    rcases hc₁ with rfl | ⟨time, hfix, rfl⟩
    · exact h.restages source (restages_failed ht hpending rfl rfl rfl)
        (fun _ hsome => hsome) (fun _ _ => rfl) (fun _ _ _ he => by cases he)
        (fun _ _ _ he => by cases he)
    · exact h.restages source (restages_failed ht hpending rfl rfl rfl)
        (fun _ hsome => congrArg some (hfix.eq hsome)) (fun _ _ => rfl)
        (fun _ _ _ he => by cases he) (fun _ _ _ he => by cases he)
  | cleared ht hpending => exact h.clearedBy ht hpending _
  | @column t p bytes payload catalog ht hpending htarget hanswer hread hfix hinsert =>
    have hself := h.current_of_pending ht hpending
    rw [htarget] at hself
    obtain ⟨values, -, hdecode, hcatalog⟩ := Catalog.insert_eq_ok hinsert
    have hget := Catalog.get?_putStored c.catalog (h.stored hself) values.toArray
    rw [← hcatalog] at hget
    refine h.restages source (restages_withStage ht hpending rfl rfl rfl nofun) ?_ ?_ ?_ ?_
    · exact fun _ hsome => congrArg some (hfix.eq hsome)
    · intro q hq
      rw [htarget] at hq
      exact (hget q).trans (if_neg fun heq => hq (congrArg LoadTarget.column heq))
    · intro p' l hp hl
      cases htarget.symm.trans hp
      refine ⟨payload.creationTime, rfl, fun q hq => ?_⟩
      exact gave_of_finished ht hpending rfl hanswer hread (hq ▸ hdecode)
        ((hget q).trans (if_pos hq))
    · intro order l horder
      rw [htarget] at horder
      cases horder
  | @sorter t order bytes index sorter ht hpending htarget hanswer hread hfix hsorter =>
    refine h.restages source (restages_withStage ht hpending rfl rfl rfl nofun) ?_ ?_ ?_ ?_
    · exact fun _ hsome => congrArg some (hfix.eq hsome)
    · exact fun _ _ => rfl
    · intro p l hp
      rw [htarget] at hp
      cases hp
    · intro order' l horder hl
      cases htarget.symm.trans horder
      cases hl
      obtain ⟨horder, htime⟩ := order?_ofIndex hsorter
      exact ⟨sorter, rfl, horder, fun time hsome => htime.symm.trans hsome⟩

theorem Valid.requests {target : LoadTarget} (source : Source) (h : c.Valid fetched)
    (hrequest : c.Requests target c' id) (hstored : ∀ p, target = .column p → p.isStored = true) :
    c'.Valid (recorded source c c' fetched) := by
  have hext := extends_of_requests hrequest
  have hlinked := h.toLinked.requests hrequest hstored
  cases hrequest with
  | current =>
    rw [recorded_self]
    exact h
  | @started t hlookup htarget hresult =>
    have hget (j : LoadId) : (c.tasks.push t)[j]? =
        if j = c.tasks.size then some t else c.tasks[j]? := Array.getElem?_push
    have hold {j : LoadId} (hj : j ≠ c.tasks.size) :
        (c.tasks.push t)[j]?.bind LoadTask.result? = c.result? j := by
      rw [hget, if_neg hj]
      rfl
    have hnew : (c.tasks.push t)[c.tasks.size]?.bind LoadTask.result? = t.result? := by
      rw [hget, if_pos rfl]
      rfl
    -- of what ends as soon as it is asked for, there is only the order that needs no file
    have hok (l : Loaded) (hl : t.result? = some (.ok l)) :
        target = .sorter .name ∧ l = .sorter .name := by
      rcases hresult with hnone | ⟨htarget, hsome⟩
      · rw [hnone] at hl
        cases hl
      · rw [hsome] at hl
        cases hl
        exact ⟨htarget, rfl⟩
    refine ⟨hlinked, ?_, ?_, ?_⟩
    · intro p j l hj hl
      rcases h.mem_started hj with heq | ⟨hj, hne⟩
      · cases heq
        obtain ⟨hname, -⟩ := hok l (hnew.symm.trans hl)
        cases hname
      · obtain ⟨time, htime, hgave⟩ := h.column hj ((hold hne).symm.trans hl)
        exact ⟨time, htime, fun q hq => (hgave q hq).of_extends hext rfl⟩
    · intro order j sorter time hj hl hsome
      rcases h.mem_started hj with heq | ⟨hj, hne⟩
      · cases heq
        obtain ⟨-, hname⟩ := hok _ (hnew.symm.trans hl)
        cases hname
        cases hsome
      · exact h.sorter hj ((hold hne).symm.trans hl) hsome
    · intro j u order l hu horder hl
      have hu := (hget j).symm.trans hu
      split at hu
      · cases hu
        obtain ⟨hname, rfl⟩ := hok l hl
        cases horder.symm.trans (htarget.trans hname)
        exact ⟨.name, rfl, rfl⟩
      · exact h.order hu horder hl

end Contents

end CardSearch
