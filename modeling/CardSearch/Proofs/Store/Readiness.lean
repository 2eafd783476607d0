import CardSearch.Proofs.Store.Coherence

/-!
# A store that has what is needed

Where all that a search needs is loaded, asking for it starts no load of a file, and there is nothing
to wait for. Where something is not loaded and no load goes on, one that goes on is waited for.
-/

namespace CardSearch

open CardStore Contents

namespace CardStore

variable {s s' : CardStore} {source : Source} {id : LoadId} {t : LoadTask} {target : LoadTarget}
  {needed ps : List Property} {order : SortOrder} {x : Sorter} {w : Waiting}

/-- A target is loaded: its load has ended well, or it needs none. -/
def Has (s : CardStore) (target : LoadTarget) : Prop :=
  target.file? = none ∨ ∃ id, (target, id) ∈ s.contents.current ∧ ∃ l, s.result? id = some (.ok l)

def Offers (s : CardStore) (order : SortOrder) (x : Sorter) : Prop :=
  (∃ id, (.sorter order, id) ∈ s.contents.current ∧ s.result? id = some (.ok (.sorter x))) ∨
    order.file? = none ∧ x = .name

structure HasAll (s : CardStore) (needed : List Property) (order : SortOrder) (x : Sorter) : Prop where
  sorter : s.Offers order x
  column {p : Property} : p ∈ needed → s.Has (s.targetOf p)

private theorem Coherent.lookup_eq (h : s.Coherent) (hid : (target, id) ∈ s.contents.current) :
    s.current.lookup target = some id := by
  cases hlookup : s.current.lookup target with
  | none => exact absurd hid (not_mem_of_lookup hlookup)
  | some j => exact congrArg some (h.linked.unique (mem_of_lookup hlookup) hid)

theorem Coherent.request_eq (h : s.Coherent) (hid : (target, id) ∈ s.contents.current) :
    s.request target = (s, id) := by
  rw [CardStore.request, h.lookup_eq hid]

theorem Coherent.exists_sorter (h : s.Coherent) (hid : (.sorter order, id) ∈ s.contents.current)
    {l : Loaded} (hl : s.result? id = some (.ok l)) :
    ∃ x, l = .sorter x ∧ x.order? = some order := by
  obtain ⟨fetched, hvalid⟩ := h.valid
  obtain ⟨t, ht, htarget, -⟩ := h.linked.task_of_current hid
  exact hvalid.order ht htarget ((result?_of_task ht).symm.trans hl)

theorem Coherent.offers (h : s.Coherent) (hsorter : s.Has (.sorter order)) :
    ∃ x, s.Offers order x := by
  rcases hsorter with hfile | ⟨id, hid, l, hl⟩
  · exact ⟨.name, .inr ⟨hfile, rfl⟩⟩
  · obtain ⟨x, rfl, -⟩ := h.exists_sorter hid hl
    exact ⟨x, .inl ⟨id, hid, hl⟩⟩

/-- What tells of the properties that are needed is loaded, and so is the index of an order. -/
def Complete (s : CardStore) (needed : List Property) (order : SortOrder) : Prop :=
  s.Has (.sorter order) ∧ ∀ p ∈ needed, s.Has (s.targetOf p)

theorem Coherent.exists_hasAll_iff (h : s.Coherent) :
    (∃ x, s.HasAll needed order x) ↔ s.Complete needed order := by
  constructor
  · rintro ⟨x, hsorter, hcolumn⟩
    refine ⟨?_, fun p hp => hcolumn hp⟩
    rcases hsorter with ⟨id, hid, hresult⟩ | ⟨hfile, -⟩
    · exact .inr ⟨id, hid, _, hresult⟩
    · exact .inl hfile
  · rintro ⟨hsorter, hcolumn⟩
    obtain ⟨x, hx⟩ := h.offers hsorter
    exact ⟨x, hx, fun {p} hp => hcolumn p hp⟩

/-- Whatever is asked for, what is loaded stays so. -/
theorem Has.request (h : s.Has target) (other : LoadTarget) :
    (s.request other).1.Has target := by
  have hrequest := requests_request s other
  refine h.imp_right fun ⟨id, hid, l, hl⟩ => ⟨id, (mem_of_requests hrequest).2 _ hid, l, ?_⟩
  exact (extends_of_requests hrequest).result_eq hl

/-- What tells of reprints does not depend on the sorters that are current. -/
theorem targetOf_requestSorter (s : CardStore) (order : SortOrder) (p : Property) :
    (s.requestSorter order).1.targetOf p = s.targetOf p := by
  unfold requestSorter CardStore.request
  split
  · rfl
  · have hother (q : Property) : (LoadTarget.column q == .sorter order) = false := rfl
    simp [targetOf, start, List.lookup_cons, hother]

theorem HasAll.of_contents_eq (h : s.HasAll needed order x) (heq : s'.contents = s.contents) :
    s'.HasAll needed order x := by
  have hcurrent : s'.current = s.current := congrArg Contents.current heq
  have hresult (id : LoadId) : s'.result? id = s.result? id := congrArg (·.result? id) heq
  have htarget (p : Property) : s'.targetOf p = s.targetOf p := by
    rw [targetOf, targetOf, hcurrent]
  constructor
  · have hsorter := h.sorter
    unfold Offers at hsorter ⊢
    simpa only [heq, hresult] using hsorter
  · intro p hp
    have hcolumn := h.column hp
    unfold Has at hcolumn ⊢
    simpa only [htarget, heq, hresult] using hcolumn

/-- Asking for a sorter that is offered starts no load of a file. -/
theorem HasAll.requestSorter (h : s.HasAll needed order x) (hc : s.Coherent) :
    (s.requestSorter order).1.HasAll needed order x ∧
      (s.requestSorter order).1.result? (s.requestSorter order).2 = some (.ok (.sorter x)) ∧
      (s.requestSorter order).1.catalog = s.catalog ∧
      (s.requestSorter order).1.fetches = s.fetches := by
  have hcolumn {p : Property} (hp : p ∈ needed) :
      (s.requestSorter order).1.Has ((s.requestSorter order).1.targetOf p) := by
    rw [targetOf_requestSorter]
    exact (h.column hp).request _
  cases hlookup : s.current.lookup (.sorter order) with
  | some id =>
    have hid := mem_of_lookup hlookup
    have hresult : s.result? id = some (.ok (.sorter x)) := by
      rcases h.sorter with ⟨j, hj, hresult⟩ | ⟨hfile, rfl⟩
      · rwa [hc.linked.unique hid hj]
      · obtain ⟨t, ht, htarget, -⟩ := hc.linked.task_of_current hid
        rw [result?_of_task ht]
        exact hc.byName id t ht (htarget ▸ hfile)
    have hrequest : s.requestSorter order = (s, id) := hc.request_eq hid
    rw [hrequest]
    exact ⟨h, hresult, rfl, rfl⟩
  | none =>
    obtain ⟨hfile, rfl⟩ : order.file? = none ∧ x = .name := h.sorter.resolve_left
      fun ⟨id, hid, _⟩ => not_mem_of_lookup hlookup hid
    have hstart : s.requestSorter order = s.start (.sorter order) := by
      rw [CardStore.requestSorter, CardStore.request, hlookup]
    refine ⟨⟨.inr ⟨hfile, rfl⟩, hcolumn⟩, ?_, ?_, ?_⟩
    · have htarget : (LoadTarget.sorter order).file? = none := hfile
      rw [hstart, start, result?]
      simp [htarget, LoadTask.result?]
    · rw [hstart]
      rfl
    · rw [hstart]
      rfl

/-- Asking for properties that are loaded changes nothing. -/
theorem requestProperties_of_has (hc : s.Coherent) (h : ∀ p ∈ ps, s.Has (s.targetOf p)) :
    ∃ ids, s.requestProperties ps = (s, ids) ∧ ∀ id ∈ ids, ∃ l, s.result? id = some (.ok l) := by
  induction ps with
  | nil => exact ⟨[], rfl, nofun⟩
  | cons p ps ih =>
    obtain ⟨hp, hps⟩ := List.forall_mem_cons.1 h
    obtain ⟨ids, hids, hall⟩ := ih hps
    obtain ⟨q, hq⟩ := (s.targetOf_cases p).1
    rcases hp with hfile | ⟨id, hid, hl⟩
    · rw [hq] at hfile
      cases hfile
    · refine ⟨id :: ids, ?_, List.forall_mem_cons.2 ⟨hl, hall⟩⟩
      have hrequest : s.requestProperty p = (s, id) := hc.request_eq hid
      simp only [requestProperties, hrequest, hids]

/-- A round over loads that have ended well finds out that they have, and does nothing. -/
theorem pollAll_of_ended (source : Source) {as : List Awaited}
    (h : ∀ a ∈ as, ∃ l, s.result? a.load = some (.ok l)) :
    ∃ as', s.pollAll source as = (s, .ok as') ∧ as'.all (·.done) = true := by
  induction as with
  | nil => exact ⟨[], rfl, rfl⟩
  | cons a as ih =>
    obtain ⟨⟨l, hl⟩, hrest⟩ := List.forall_mem_cons.1 h
    obtain ⟨as', hall, hdone⟩ := ih hrest
    have hself : s.poll source a.load = s := poll_of_result hl source
    rw [pollAll]
    split
    · next ha =>
      rw [hall]
      exact ⟨a :: as', rfl, by simpa [ha] using hdone⟩
    · simp only [hself, hl, hall]
      exact ⟨{ a with done := true } :: as', rfl, by simpa using hdone⟩

/-- Whoever begins to wait where everything is loaded has nothing to wait for. -/
theorem HasAll.begin (h : s.HasAll needed order x) (hc : s.Coherent) :
    ∃ s' w, Waiting.begin s needed order = (s', w) ∧ s'.HasAll needed order x ∧ s'.Coherent ∧
      s'.catalog = s.catalog ∧ s'.fetches = s.fetches ∧
      ∀ source : Source, w.poll source s' = (s', .ready x) := by
  obtain ⟨hall, hresult, hcatalog, hfetches⟩ := h.requestSorter hc
  have hc' : (s.requestSorter order).1.Coherent := hc.request nofun
  obtain ⟨ids, hids, hended⟩ := requestProperties_of_has hc' fun p hp => hall.column hp
  let w : Waiting := { columns := ids.map fun id => { load := id }, sorter := (s.requestSorter order).2 }
  have hbegin : Waiting.begin s needed order = ((s.requestSorter order).1, w) := by
    simp only [Waiting.begin, hids, w]
  have hcolumns (a : Awaited) (ha : a ∈ w.columns) :
      ∃ l, (s.requestSorter order).1.result? a.load = some (.ok l) := by
    obtain ⟨id, hid, rfl⟩ := List.mem_map.1 ha
    exact hended id hid
  refine ⟨(s.requestSorter order).1, w, hbegin, hall, hc', hcatalog, hfetches, fun source => ?_⟩
  obtain ⟨columns, hpolled, hdone⟩ := pollAll_of_ended source hcolumns
  have hself : (s.requestSorter order).1.poll source (s.requestSorter order).2 =
      (s.requestSorter order).1 := poll_of_result hresult source
  simp only [Waiting.poll, w, hpolled, hself, hresult, hdone, if_true, Waiting.sorterOf]

def Idle (s : CardStore) : Prop :=
  ∀ (id : LoadId) (t : LoadTask), s.contents.tasks[id]? = some t → t.result? ≠ none

/-- Where no load goes on, none is of anything else than what is asked for. -/
theorem Coherent.asks_of_idle (h : s.Coherent) (hidle : s.Idle) : s.Asks needed order :=
  ⟨h, fun ht hpending => absurd hpending (hidle _ _ ht)⟩

theorem Coherent.has_of_idle (h : s.Coherent) (hidle : s.Idle)
    (hid : (target, id) ∈ s.contents.current) : s.Has target := by
  obtain ⟨t, ht, -, hok⟩ := h.linked.task_of_current hid
  obtain ⟨r, hr⟩ := Option.ne_none_iff_exists'.1 (hidle id t ht)
  have hresult : s.contents.result? id = some r := Option.bind_eq_some_iff.2 ⟨t, ht, hr⟩
  cases r with
  | error e => exact absurd hr (hok e)
  | ok l => exact .inr ⟨id, hid, l, hresult⟩

def Pends (s : CardStore) (id : LoadId) : Prop :=
  ∃ t, s.contents.tasks[id]? = some t ∧ t.result? = none

theorem Pends.result?_eq (h : s.Pends id) : s.result? id = none := by
  obtain ⟨t, ht, hpending⟩ := h
  exact (result?_of_task ht).trans hpending

private theorem Pends.request (h : s.Pends id) (target : LoadTarget) :
    (s.request target).1.Pends id := by
  obtain ⟨t, ht, hpending⟩ := h
  refine ⟨t, ?_, hpending⟩
  unfold CardStore.request
  split
  · exact ht
  · have hid := (Array.getElem?_eq_some_iff.1 ht).1
    exact (Array.getElem?_push.trans (if_neg (Nat.ne_of_lt hid))).trans ht

theorem Pends.requestProperties (h : s.Pends id) (ps : List Property) :
    (s.requestProperties ps).1.Pends id := by
  induction ps generalizing s with
  | nil => exact h
  | cons p ps ih => exact ih (h.request _)

/-- A load of a file that is not current is started, and goes on. -/
theorem pends_request (hlookup : s.current.lookup target = none) {file : String}
    (hfile : target.file? = some file) : (s.request target).1.Pends (s.request target).2 := by
  rw [CardStore.request, hlookup]
  refine ⟨⟨target, file, s.reload, .requested⟩, ?_, rfl⟩
  simp [start, contents, hfile]

/-- Either all properties that are asked for are loaded or being loaded, or a load that was just
started is among those that are given. -/
theorem requestProperties_cases (s : CardStore) (ps : List Property) :
    (∀ p ∈ ps, ∃ id, (s.targetOf p, id) ∈ s.contents.current) ∨
      ∃ id ∈ (s.requestProperties ps).2, (s.requestProperties ps).1.Pends id := by
  induction ps with
  | nil => exact .inl nofun
  | cons p ps ih =>
    simp only [requestProperties, requestProperty]
    cases hlookup : s.current.lookup (s.targetOf p) with
    | some id =>
      have hrequest : s.request (s.targetOf p) = (s, id) := by rw [CardStore.request, hlookup]
      rw [hrequest]
      refine ih.imp (fun h => List.forall_mem_cons.2 ⟨⟨id, mem_of_lookup hlookup⟩, h⟩) ?_
      rintro ⟨j, hj, hpends⟩
      exact ⟨j, List.mem_cons_of_mem _ hj, hpends⟩
    | none =>
      obtain ⟨q, hq⟩ := (s.targetOf_cases p).1
      have hfile : (s.targetOf p).file? = some q.file := congrArg LoadTarget.file? hq
      have hpends := pends_request hlookup hfile
      exact .inr ⟨_, List.mem_cons_self, hpends.requestProperties ps⟩

end CardStore

namespace Waiting

open CardStore

variable {s : CardStore} {needed : List Property} {order : SortOrder}

def GoesOn (w : Waiting) (s : CardStore) : Prop :=
  (∃ a ∈ w.columns, a.done = false ∧ s.Pends a.load) ∨ w.sorterSeen = none ∧ s.Pends w.sorter

/-- Where no load goes on, whoever begins to wait has all that is needed or waits for a load that
goes on. -/
theorem hasAll_or_goesOn_begin (hc : s.Coherent) (hidle : s.Idle) (needed : List Property)
    (order : SortOrder) :
    (∃ x, s.HasAll needed order x) ∨
      (Waiting.begin s needed order).2.GoesOn (Waiting.begin s needed order).1 := by
  have hsorter : (∃ x, s.Offers order x) ∨
      (s.requestSorter order).1.Pends (s.requestSorter order).2 := by
    cases hlookup : s.current.lookup (.sorter order) with
    | some id => exact .inl (hc.offers (hc.has_of_idle hidle (mem_of_lookup hlookup)))
    | none =>
      cases hfile : order.file? with
      | none => exact .inl ⟨.name, .inr ⟨hfile, rfl⟩⟩
      | some file => exact .inr (pends_request hlookup hfile)
  rcases hsorter with ⟨x, hx⟩ | hpends
  · refine ((s.requestSorter order).1.requestProperties_cases needed).imp (fun hall => ?_) ?_
    · refine ⟨x, hx, fun {p} hp => ?_⟩
      obtain ⟨id, hid⟩ := hall p hp
      rw [targetOf_requestSorter] at hid
      obtain ⟨q, hq⟩ := (s.targetOf_cases p).1
      rw [hq] at hid ⊢
      rcases Contents.current_of_requests hc.linked (requests_request s (.sorter order)) hid with
        ⟨hid, -⟩ | ⟨hname, -⟩
      · exact hc.has_of_idle hidle hid
      · cases hname
    · rintro ⟨id, hid, hpends⟩
      exact .inl ⟨_, List.mem_map_of_mem hid, rfl, hpends⟩
  · exact .inr (.inr ⟨rfl, hpends.requestProperties needed⟩)

end Waiting

end CardSearch
