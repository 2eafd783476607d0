import CardSearch.Store.Awaiting

/-!
# What asking for a load and polling it do

Most of a store only reports on what happens. What counts for a search are the columns, the loads
and the creation time of the snapshot. Asking for a load may add one; polling a load changes the
contents in one of six ways.
-/

namespace CardSearch

structure Contents where
  catalog : Catalog
  creationTime? : Option UInt64
  tasks : Array LoadTask
  current : List (LoadTarget × LoadId)
  generation : Nat

namespace Contents

/-- What a load gave, once it has ended. -/
def result? (c : Contents) (id : LoadId) : Option (Except LoadError Loaded) :=
  c.tasks[id]?.bind LoadTask.result?

def withStage (c : Contents) (id : LoadId) (t : LoadTask) (stage : LoadStage) : Contents :=
  { c with tasks := c.tasks.setIfInBounds id { t with stage } }

def cleared (c : Contents) : Contents where
  catalog := ∅
  creationTime? := none
  tasks := c.tasks.map LoadTask.abort
  current := []
  generation := c.generation + 1

def without (c : Contents) (target : LoadTarget) : Contents :=
  { c with current := c.current.filter (·.1 != target) }

def FixesTime (c : Contents) (time : UInt64) : Prop :=
  c.creationTime? = none ∨ c.creationTime? = some time

inductive Polls (source : Source) (c : Contents) (id : LoadId) : Contents → Prop
  | same : Polls source c id c
  | fetching {t : LoadTask} (ht : c.tasks[id]? = some t) (hpending : t.result? = none) :
    Polls source c id (c.withStage id t .fetching)
  | failed {t : LoadTask} {c' : Contents} {e : LoadError} (ht : c.tasks[id]? = some t)
    (hpending : t.result? = none)
    (hc' : c' = c ∨ ∃ time, c.FixesTime time ∧ c' = { c with creationTime? := some time }) :
    Polls source c id ((c'.withStage id t (.finished (.error e))).without t.target)
  | cleared {t : LoadTask} {e : LoadError} (ht : c.tasks[id]? = some t)
    (hpending : t.result? = none) :
    Polls source c id ((c.cleared.withStage id t (.finished (.error e))).without t.target)
  | column {t : LoadTask} {p : Property} {bytes : List UInt8} {payload : Payload}
    {catalog : Catalog} (ht : c.tasks[id]? = some t) (hpending : t.result? = none)
    (htarget : t.target = .column p) (hanswer : source t.file = some (.ok bytes))
    (hread : Payload.read? bytes = some payload) (htime : c.FixesTime payload.creationTime)
    (hinsert : c.catalog.insert p payload.data = .ok catalog) :
    Polls source c id ({ c with catalog, creationTime? := some payload.creationTime }.withStage id t
      (.finished (.ok .column)))
  | sorter {t : LoadTask} {order : SortOrder} {bytes : List UInt8} {index : SortIndex}
    {sorter : Sorter} (ht : c.tasks[id]? = some t) (hpending : t.result? = none)
    (htarget : t.target = .sorter order) (hanswer : source t.file = some (.ok bytes))
    (hread : SortIndex.read bytes = .ok index) (htime : c.FixesTime index.creationTime)
    (hsorter : Sorter.ofIndex order index = .ok sorter) :
    Polls source c id ({ c with creationTime? := some index.creationTime }.withStage id t
      (.finished (.ok (.sorter sorter))))

inductive Requests (c : Contents) (target : LoadTarget) : Contents → LoadId → Prop
  | current {id : LoadId} (h : c.current.lookup target = some id) : Requests c target c id
  | started {t : LoadTask} (h : c.current.lookup target = none) (htarget : t.target = target)
    (hresult : t.result? = none ∨
      target = .sorter .name ∧ t.result? = some (.ok (.sorter .name))) :
    Requests c target
      { c with tasks := c.tasks.push t, current := (target, c.tasks.size) :: c.current }
      c.tasks.size

end Contents

namespace CardStore

open Contents

def contents (s : CardStore) : Contents :=
  ⟨s.catalog, s.creationTime?, s.tasks, s.current, s.generation⟩

theorem result?_of_task {s : CardStore} {id : LoadId} {t : LoadTask}
    (ht : s.contents.tasks[id]? = some t) : s.result? id = t.result? := by
  have hget : s.tasks[id]? = some t := ht
  rw [result?, hget, Option.bind_some]

theorem requests_request (s : CardStore) (target : LoadTarget) :
    s.contents.Requests target (s.request target).1.contents (s.request target).2 := by
  unfold request
  split
  · next id h => exact .current h
  · next h =>
    cases target with
    | column p => exact .started h rfl (.inl rfl)
    | sorter order =>
      cases order with
      | name => exact .started h rfl (.inr ⟨rfl, rfl⟩)
      | cmc | releasedAt => exact .started h rfl (.inl rfl)

private theorem contents_outdate (s : CardStore) (expected actual : UInt64) :
    (s.outdate expected actual).contents = s.contents ∨
      (s.outdate expected actual).contents = s.contents.cleared := by
  unfold outdate
  dsimp only
  split
  · exact .inr rfl
  · exact .inl rfl

/-- A file of the snapshot fixes its creation time; one of another snapshot may clear the store. -/
theorem checkSnapshot_cases (s : CardStore) (time : UInt64) :
    (∃ s', s.checkSnapshot time = (s', .ok ()) ∧ s.contents.FixesTime time ∧
      s'.contents = { s.contents with creationTime? := some time }) ∨
    ∃ s' e, s.checkSnapshot time = (s', .error e) ∧
      (s'.contents = s.contents ∨ s'.contents = s.contents.cleared) := by
  unfold checkSnapshot
  split
  · next hnone => exact .inl ⟨_, rfl, .inl hnone, rfl⟩
  · next expected hsome =>
    split
    · next heq =>
      subst heq
      have hsame : { s.contents with creationTime? := some expected } = s.contents := by
        rw [← hsome]
        rfl
      exact .inl ⟨s, rfl, .inr hsome, hsame.symm⟩
    · exact .inr ⟨_, _, rfl, contents_outdate s expected time⟩

theorem contents_settle (s : CardStore) (id : LoadId) (t : LoadTask)
    (result : Except LoadError Loaded) :
    (s.settle id t result).contents =
      match result with
      | .ok _ => s.contents.withStage id t (.finished result)
      | .error _ => (s.contents.withStage id t (.finished result)).without t.target := by
  cases result <;> rfl

/-- A file that cannot be taken in leaves the columns as they are, or clears the store. -/
def Rejects (s s' : CardStore) : Prop :=
  (s'.contents = s.contents ∨ ∃ time, s.contents.FixesTime time ∧
    s'.contents = { s.contents with creationTime? := some time }) ∨
  s'.contents = s.contents.cleared

private theorem acceptPayload_cases (s : CardStore) (p : Property) (payload : Payload) :
    (∃ s' catalog, s.acceptPayload p payload = (s', .ok .column) ∧
      s.contents.FixesTime payload.creationTime ∧
      s.catalog.insert p payload.data = .ok catalog ∧ s'.contents =
        { s.contents with catalog, creationTime? := some payload.creationTime }) ∨
    ∃ s' e, s.acceptPayload p payload = (s', .error e) ∧ s.Rejects s' := by
  unfold acceptPayload
  rcases s.checkSnapshot_cases payload.creationTime with
    ⟨s', hcheck, htime, hs'⟩ | ⟨s', e, hcheck, hs'⟩
  · rw [hcheck]
    have hcatalog : s'.catalog = s.catalog := congrArg Contents.catalog hs'
    dsimp only
    rw [hcatalog]
    cases hinsert : s.catalog.insert p payload.data with
    | error e => exact .inr ⟨_, _, rfl, .inl (.inr ⟨_, htime, hs'⟩)⟩
    | ok catalog =>
      exact .inl ⟨_, _, rfl, htime, rfl, congrArg (fun c => { c with catalog }) hs'⟩
  · rw [hcheck]
    exact .inr ⟨_, _, rfl, hs'.imp .inl id⟩

private theorem acceptIndex_cases (s : CardStore) (order : SortOrder) (file : String)
    (index : SortIndex) :
    (∃ s' sorter, s.acceptIndex order file index = (s', .ok (.sorter sorter)) ∧
      s.contents.FixesTime index.creationTime ∧ Sorter.ofIndex order index = .ok sorter ∧
      s'.contents = { s.contents with creationTime? := some index.creationTime }) ∨
    ∃ s' e, s.acceptIndex order file index = (s', .error e) ∧ s.Rejects s' := by
  unfold acceptIndex
  rcases s.checkSnapshot_cases index.creationTime with
    ⟨s', hcheck, htime, hs'⟩ | ⟨s', e, hcheck, hs'⟩
  · rw [hcheck]
    dsimp only
    cases hsorter : Sorter.ofIndex order index with
    | error e => exact .inr ⟨_, _, rfl, .inl (.inr ⟨_, htime, hs'⟩)⟩
    | ok sorter => exact .inl ⟨_, _, rfl, htime, rfl, hs'⟩
  · rw [hcheck]
    exact .inr ⟨_, _, rfl, hs'.imp .inl id⟩

/-- A load whose file is rejected fails, and may have the store cleared. -/
theorem polls_settle_of_rejects {s s' : CardStore} {source : Source} {id : LoadId} {t : LoadTask}
    (e : LoadError) (ht : s.contents.tasks[id]? = some t) (hpending : t.result? = none)
    (h : s.Rejects s') : s.contents.Polls source id (s'.settle id t (.error e)).contents := by
  rw [contents_settle]
  rcases h with h | h
  · exact .failed ht hpending h
  · rw [h]
    exact .cleared ht hpending

private theorem polls_finish {s : CardStore} {source : Source} {id : LoadId} {t : LoadTask}
    {answer : Except String (List UInt8)} (ht : s.contents.tasks[id]? = some t)
    (hpending : t.result? = none) (hanswer : source t.file = some answer) :
    s.contents.Polls source id (s.finish id t answer).contents := by
  have hsame : s.Rejects s := .inl (.inl rfl)
  unfold finish
  cases answer with
  | error message => exact polls_settle_of_rejects _ ht hpending hsame
  | ok bytes =>
    dsimp only
    unfold accept
    cases htarget : t.target with
    | column p =>
      dsimp only
      cases hread : Payload.read? bytes with
      | none => exact polls_settle_of_rejects _ ht hpending hsame
      | some payload =>
        dsimp only
        rcases s.acceptPayload_cases p payload with
          ⟨s', catalog, haccept, htime, hinsert, hs'⟩ | ⟨s', e, haccept, hrejects⟩
        · rw [haccept, contents_settle, hs']
          exact .column ht hpending htarget hanswer hread htime hinsert
        · rw [haccept]
          exact polls_settle_of_rejects e ht hpending hrejects
    | sorter order =>
      dsimp only
      cases hread : SortIndex.read bytes with
      | error e => exact polls_settle_of_rejects _ ht hpending hsame
      | ok index =>
        dsimp only
        rcases s.acceptIndex_cases order t.file index with
          ⟨s', sorter, haccept, htime, hsorter, hs'⟩ | ⟨s', e, haccept, hrejects⟩
        · rw [haccept, contents_settle, hs']
          exact .sorter ht hpending htarget hanswer hread htime hsorter
        · rw [haccept]
          exact polls_settle_of_rejects e ht hpending hrejects

theorem polls_poll (s : CardStore) (source : Source) (id : LoadId) :
    s.contents.Polls source id (s.poll source id).contents := by
  unfold poll
  split
  · exact .same
  · next t ht =>
    have ht : s.contents.tasks[id]? = some t := ht
    split
    · exact .same
    · next hstage => exact .fetching ht (by simp [LoadTask.result?, hstage])
    · next hstage =>
      split
      · exact .same
      · next answer hanswer =>
        exact polls_finish ht (by simp [LoadTask.result?, hstage]) hanswer

/-- A part of a store that stays as it is when a file is taken in, even if the store is cleared. -/
structure Untouched {α : Type} (f : CardStore → α) : Prop where
  report (s : CardStore) (event : LogEvent) (fields : List (String × String)) :
    f (s.report event fields) = f s
  clear (s : CardStore) : f s.clear = f s
  catalog (s : CardStore) (catalog : Catalog) : f { s with catalog } = f s
  creationTime (s : CardStore) (time? : Option UInt64) : f { s with creationTime? := time? } = f s
  tasks (s : CardStore) (tasks : Array LoadTask) : f { s with tasks } = f s
  current (s : CardStore) (current : List (LoadTarget × LoadId)) : f { s with current } = f s

namespace Untouched

variable {α : Type} {f : CardStore → α}

private theorem checkSnapshot (h : Untouched f) (s : CardStore) (time : UInt64) :
    f (s.checkSnapshot time).1 = f s := by
  unfold CardStore.checkSnapshot outdate
  split
  · exact h.creationTime s _
  · split
    · rfl
    · dsimp only
      split
      · exact (h.report ..).trans ((h.clear _).trans (h.report ..))
      · exact h.report ..

private theorem accept (h : Untouched f) (s : CardStore) (target : LoadTarget) (file : String)
    (bytes : List UInt8) : f (s.accept target file bytes).1 = f s := by
  unfold CardStore.accept
  cases target with
  | column p =>
    dsimp only
    split
    · rfl
    · next payload _ =>
      have hcheck := h.checkSnapshot s payload.creationTime
      unfold acceptPayload
      split
      · next heq => simpa [heq] using hcheck
      · next heq =>
        rw [heq] at hcheck
        split
        · exact hcheck
        · exact (h.report ..).trans ((h.catalog _ _).trans hcheck)
  | sorter order =>
    dsimp only
    split
    · rfl
    · next index _ =>
      have hcheck := h.checkSnapshot s index.creationTime
      unfold acceptIndex
      split
      · next heq => simpa [heq] using hcheck
      · next heq =>
        rw [heq] at hcheck
        dsimp only
        split <;> exact (h.report ..).trans hcheck

theorem finish (h : Untouched f) (s : CardStore) (id : LoadId) (t : LoadTask)
    (answer : Except String (List UInt8)) : f (s.finish id t answer) = f s := by
  have hsettle (s : CardStore) (result : Except LoadError Loaded) :
      f (s.settle id t result) = f s := by
    cases result with
    | ok l => exact h.tasks s _
    | error e => exact (h.current _ _).trans (h.tasks s _)
  cases answer with
  | error message => exact hsettle s (.error (.io t.file message))
  | ok bytes => exact (hsettle _ _).trans (h.accept s t.target t.file bytes)

/-- Nor does polling a load touch it, if it is not about fetches. -/
theorem poll (h : Untouched f)
    (hfetches : ∀ (s : CardStore) (fetches : Array (String × Bool)), f { s with fetches } = f s)
    (s : CardStore) (source : Source) (id : LoadId) : f (s.poll source id) = f s := by
  unfold CardStore.poll
  split
  · rfl
  · split
    · rfl
    · exact (hfetches _ _).trans (h.tasks s _)
    · split
      · rfl
      · exact h.finish ..

end Untouched

end CardStore

end CardSearch
