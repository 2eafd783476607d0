import CardSearch.Proofs.Store.Generations

/-!
# Loads that fail

A load that fails without clearing the store leaves the columns and the mark that caches are passed
by as they are, and can be asked for anew. The creation time of the snapshot it leaves only if there
was one, or if the file does not carry one that can be read: the time of the first file is kept
before its data are looked at. So the creation time of a store is that of some file of its
generation, which need not have been fit to load.
-/

namespace CardSearch

/-- Among entries that are chosen by their keys, one is looked up if its key is chosen. -/
theorem lookup_filter_key {α β : Type} [BEq α] [LawfulBEq α] (chosen : α → Bool) (a : α)
    (l : List (α × β)) :
    (l.filter (chosen ·.1)).lookup a = if chosen a then l.lookup a else none := by
  induction l with
  | nil => simp
  | cons x l ih =>
    obtain ⟨key, b⟩ := x
    by_cases hkey : a = key
    · subst hkey
      cases hchosen : chosen a <;> simp [hchosen, ih]
    · have hne : (a == key) = false := beq_eq_false_iff_ne.mpr hkey
      cases hchosen : chosen key <;> simp [hchosen, List.lookup_cons, hne, ih]

def LoadTarget.timeIn? : LoadTarget → List UInt8 → Option UInt64
  | column _, bytes => (Payload.read? bytes).map Payload.creationTime
  | sorter _, bytes => (SortIndex.read bytes).toOption.map SortIndex.creationTime

/-- The creation time that the answer to the fetch of a load carries, if it can be read. -/
def LoadTask.timeFrom? (t : LoadTask) (source : Source) : Option UInt64 :=
  match source t.file with
  | some (.ok bytes) => t.target.timeIn? bytes
  | _ => none

theorem LoadTask.timeFrom?_eq_some {t : LoadTask} {source : Source} {time : UInt64}
    (h : t.timeFrom? source = some time) :
    ∃ bytes, source t.file = some (.ok bytes) ∧ t.target.timeIn? bytes = some time := by
  unfold timeFrom? at h
  split at h
  · next bytes hanswer => exact ⟨bytes, hanswer, h⟩
  · cases h

/-- A load did not fail, or failed for what its file holds: trying again would not help. -/
def Judged (r : Except LoadError Loaded) : Prop := ∀ e, r = .error e → e.isRetryable = false

theorem judged_ok (l : Loaded) : Judged (.ok l) := nofun

theorem judged_error {e : LoadError} (h : e.isRetryable = false) : Judged (.error e) :=
  fun _ heq => Except.error.inj heq ▸ h

namespace CardStore

variable {s s' : CardStore} {source : Source} {id : LoadId} {t : LoadTask}
  {r : Except LoadError Loaded} {e : LoadError} {time? : Option UInt64}

def ClearedTo (s s' : CardStore) : Prop :=
  s'.generation = s.generation + 1 ∧ s'.creationTime? = none

/-- A file with a creation time, or without one that can be read, is taken in or refused. Either way
its creation time is that of the snapshot from then on, if there was none. -/
structure Takes (s : CardStore) (time? : Option UInt64) (s' : CardStore)
    (r : Except LoadError Loaded) : Prop where
  creationTime?_eq : s'.creationTime? = s.creationTime?.or time?
  generation_eq : s'.generation = s.generation
  reload_eq : s'.reload = s.reload
  tasks_eq : s'.tasks = s.tasks
  current_eq : s'.current = s.current
  catalog_eq {e : LoadError} : r = .error e → s'.catalog = s.catalog
  judged {time : UInt64} : s.creationTime? = none → time? = some time → Judged r

theorem takes_self (s : CardStore) (e : LoadError) : s.Takes none s (.error e) where
  creationTime?_eq := (Option.or_none ..).symm
  generation_eq := rfl
  reload_eq := rfl
  tasks_eq := rfl
  current_eq := rfl
  catalog_eq _ := rfl
  judged _ h := nomatch h

private theorem outdate_cases (s : CardStore) (expected actual : UInt64) :
    s.ClearedTo (s.outdate expected actual) ∨
      ∃ event fields, s.outdate expected actual = s.report event fields := by
  unfold outdate
  dsimp only
  split
  · exact .inl ⟨rfl, rfl⟩
  · exact .inr ⟨_, _, rfl⟩

/-- Either the creation time is that of the snapshot from now on, or the file is of another one. -/
theorem checkSnapshot_spec (s : CardStore) (time : UInt64) :
    s.checkSnapshot time = ({ s with creationTime? := s.creationTime?.or (some time) }, .ok ()) ∨
      ∃ expected, s.creationTime? = some expected ∧
        s.checkSnapshot time = (s.outdate expected time, .error (.stale expected time)) := by
  unfold checkSnapshot
  split
  · next hnone =>
    rw [hnone]
    exact .inl rfl
  · next expected hsome =>
    split
    · refine .inl ?_
      rw [hsome, Option.some_or, ← hsome]
    · exact .inr ⟨expected, hsome, rfl⟩

/-- A file of another snapshot is refused, or has the store cleared. -/
theorem takes_outdate {expected : UInt64} (hsome : s.creationTime? = some expected) (time : UInt64)
    (e : LoadError) : s.Takes (some time) (s.outdate expected time) (.error e) ∨
      s.ClearedTo (s.outdate expected time) := by
  rcases outdate_cases s expected time with hcleared | ⟨event, fields, heq⟩
  · exact .inr hcleared
  · rw [heq]
    refine .inl ⟨?_, rfl, rfl, rfl, rfl, fun _ => rfl, fun hnone => nomatch hsome.symm.trans hnone⟩
    change s.creationTime? = s.creationTime?.or (some time)
    rw [hsome, Option.some_or]

private theorem takes_acceptPayload (s : CardStore) {p : Property} (payload : Payload) :
    s.Takes (some payload.creationTime) (s.acceptPayload p payload).1
        (s.acceptPayload p payload).2 ∨ s.ClearedTo (s.acceptPayload p payload).1 := by
  unfold acceptPayload
  rcases s.checkSnapshot_spec payload.creationTime with hcheck | ⟨expected, hsome, hcheck⟩
  · rw [hcheck]
    dsimp only
    cases hinsert : s.catalog.insert p payload.data with
    | error e =>
      refine .inl ⟨rfl, rfl, rfl, rfl, rfl, fun _ => rfl, fun _ _ => judged_error ?_⟩
      -- no data are worth trying again
      unfold Catalog.insert at hinsert
      split at hinsert
      · split at hinsert <;> cases hinsert
        rfl
      · cases hinsert
        rfl
    | ok catalog => exact .inl ⟨rfl, rfl, rfl, rfl, rfl, nofun, fun _ _ => judged_ok _⟩
  · rw [hcheck]
    exact takes_outdate hsome ..

private theorem takes_acceptIndex (s : CardStore) (order : SortOrder) (file : String)
    (index : SortIndex) : s.Takes (some index.creationTime) (s.acceptIndex order file index).1
        (s.acceptIndex order file index).2 ∨ s.ClearedTo (s.acceptIndex order file index).1 := by
  unfold acceptIndex
  rcases s.checkSnapshot_spec index.creationTime with hcheck | ⟨expected, hsome, hcheck⟩
  · rw [hcheck]
    dsimp only
    cases Sorter.ofIndex order index with
    | error e => exact .inl ⟨rfl, rfl, rfl, rfl, rfl, fun _ => rfl, fun _ _ => judged_error rfl⟩
    | ok sorter => exact .inl ⟨rfl, rfl, rfl, rfl, rfl, nofun, fun _ _ => judged_ok _⟩
  · rw [hcheck]
    exact takes_outdate hsome ..

/-- The content of a file is taken in or refused, or has the store cleared. -/
theorem takes_accept (s : CardStore) (target : LoadTarget) (file : String) (bytes : List UInt8) :
    s.Takes (target.timeIn? bytes) (s.accept target file bytes).1 (s.accept target file bytes).2 ∨
      s.ClearedTo (s.accept target file bytes).1 := by
  unfold accept LoadTarget.timeIn?
  cases target with
  | column p =>
    dsimp only
    cases Payload.read? bytes with
    | none => exact .inl (s.takes_self _)
    | some payload => exact s.takes_acceptPayload payload
  | sorter order =>
    dsimp only
    cases SortIndex.read bytes with
    | error e => exact .inl (s.takes_self _)
    | ok index => exact s.takes_acceptIndex order file index

structure Ends (s : CardStore) (source : Source) (id : LoadId) (t : LoadTask)
    (r : Except LoadError Loaded) (s' : CardStore) : Prop where
  result?_eq : s'.result? id = some r
  takes : ∃ taken, s.Takes (t.timeFrom? source) taken r ∧ s' = taken.settle id t r

theorem result?_settle (ht : s.tasks[id]? = some t) : (s.settle id t r).result? id = some r := by
  have hid := (Array.getElem?_eq_some_iff.1 ht).1
  have htask : (s.settle id t r).tasks[id]? = some { t with stage := .finished r } := by
    cases r <;> exact Array.getElem?_setIfInBounds_self_of_lt hid
  rw [result?, htask]
  rfl

private theorem Takes.ends (h : s.Takes (t.timeFrom? source) s' r) (ht : s.tasks[id]? = some t) :
    s.Ends source id t r (s'.settle id t r) :=
  ⟨result?_settle (h.tasks_eq ▸ ht), s', h, rfl⟩

theorem ClearedTo.settle (h : s.ClearedTo s') : s.ClearedTo (s'.settle id t r) := by
  cases r <;> exact h

/-- Polling a load that has not ended leaves it so, ends it, or clears the store. -/
theorem ends_poll (source : Source) (ht : s.tasks[id]? = some t) (hpending : t.result? = none) :
    (s.poll source id).result? id = none ∧ (s.poll source id).creationTime? = s.creationTime? ∨
      (∃ r, s.Ends source id t r (s.poll source id)) ∨ s.ClearedTo (s.poll source id) := by
  have hid := (Array.getElem?_eq_some_iff.1 ht).1
  unfold poll
  rw [ht]
  dsimp only
  split
  · next hstage => simp [LoadTask.result?, hstage] at hpending
  · refine .inl ⟨?_, rfl⟩
    have htask : (s.tasks.setIfInBounds id { t with stage := .fetching })[id]? =
        some { t with stage := .fetching } := Array.getElem?_setIfInBounds_self_of_lt hid
    exact (congrArg (·.bind LoadTask.result?) htask).trans rfl
  · split
    · exact .inl ⟨(congrArg (·.bind LoadTask.result?) ht).trans hpending, rfl⟩
    · next answer hanswer =>
      cases answer with
      | error message =>
        have hnone : t.timeFrom? source = none := by rw [LoadTask.timeFrom?, hanswer]
        exact .inr (.inl ⟨_, Takes.ends (hnone ▸ s.takes_self _) ht⟩)
      | ok bytes =>
        have htime : t.timeFrom? source = t.target.timeIn? bytes := by
          rw [LoadTask.timeFrom?, hanswer]
        refine .inr ((takes_accept s t.target t.file bytes).imp (fun h => ?_) fun h => h.settle)
        exact ⟨_, Takes.ends (htime ▸ h) ht⟩

/-- What is left of a store by a load that failed without clearing it: all but the load, and the
creation time if there was none. -/
structure Survives (s : CardStore) (source : Source) (t : LoadTask) (s' : CardStore) : Prop where
  catalog_eq : s'.catalog = s.catalog
  reload_eq : s'.reload = s.reload
  lookup_eq : s'.current.lookup t.target = none
  lookup_other {target : LoadTarget} : target ≠ t.target →
    s'.current.lookup target = s.current.lookup target
  creationTime?_eq : s'.creationTime? = s.creationTime?.or (t.timeFrom? source)

theorem Survives.creationTime?_eq_iff (h : s.Survives source t s') :
    s'.creationTime? = s.creationTime? ↔ s.creationTime? ≠ none ∨ t.timeFrom? source = none := by
  rw [h.creationTime?_eq]
  cases s.creationTime? with
  | none => simp
  | some time => simp

private theorem survives_settle (h : s.Takes (t.timeFrom? source) s' (.error e)) :
    s.Survives source t (s'.settle id t (.error e)) where
  catalog_eq := h.catalog_eq rfl
  reload_eq := h.reload_eq
  lookup_eq := (lookup_filter_key (· != t.target) ..).trans (if_neg (by simp))
  lookup_other {target} hne := by
    rw [← h.current_eq]
    exact (lookup_filter_key (· != t.target) ..).trans (if_pos (bne_iff_ne.mpr hne))
  creationTime?_eq := h.creationTime?_eq

theorem survives_poll (source : Source) (ht : s.tasks[id]? = some t) (hpending : t.result? = none)
    (hfailed : (s.poll source id).result? id = some (.error e))
    (hgen : (s.poll source id).generation = s.generation) :
    s.Survives source t (s.poll source id) := by
  rcases ends_poll source ht hpending with ⟨hnone, -⟩ | ⟨r, hends⟩ | hcleared
  · exact nomatch hnone.symm.trans hfailed
  · obtain ⟨s', htakes, hpoll⟩ := hends.takes
    obtain rfl : r = .error e := Option.some.inj (hends.result?_eq.symm.trans hfailed)
    exact hpoll ▸ survives_settle htakes
  · exact absurd (hgen.symm.trans hcleared.1) (Nat.ne_of_lt (Nat.lt_succ_self _))

end CardStore

namespace Contents

variable {c c' : Contents} {fetched : Fetched} {startedIn startedIn' : LoadId → Option Nat}

/-- The creation time is that of the file of some load of this generation, which has ended, and not
for a reason that trying again would help. -/
def Timed (c : Contents) (fetched : Fetched) (startedIn : LoadId → Option Nat) : Prop :=
  ∀ time, c.creationTime? = some time → ∃ id t bytes r, c.tasks[id]? = some t ∧
    startedIn id = some c.generation ∧ fetched id = some bytes ∧
    t.target.timeIn? bytes = some time ∧ t.result? = some r ∧ Judged r

theorem Timed.of_extends (source : Source) (h : c.Timed fetched startedIn) (hext : Extends c c')
    (htime : c'.creationTime? = c.creationTime?) (hgen : c'.generation = c.generation) :
    c'.Timed (recorded source c c' fetched) (started c c' startedIn) := by
  intro time hsome
  obtain ⟨id, t, bytes, r, ht, hstarted, hfetched, htimeIn, hr, hjudged⟩ :=
    h time (htime.symm.trans hsome)
  have hid := (Array.getElem?_eq_some_iff.1 ht).1
  have hended : c.result? id ≠ none := by simp [result?, ht, hr]
  obtain ⟨t', ht', htarget, -, hresult⟩ := hext.task ht
  refine ⟨id, t', bytes, r, ht', ?_, ?_, ?_, (hresult (by simp [hr])).trans hr, hjudged⟩
  · rw [started, if_neg fun hnew => Nat.not_le_of_lt hid hnew.1, hgen, hstarted]
  · rw [recorded_of_ended hended, hfetched]
  · rw [htarget, htimeIn]

end Contents

namespace History

open CardStore Contents

/-- The creation time of a store is that of a file of its generation. -/
def Timed (h : History) : Prop := h.store.contents.Timed h.fetched h.startedIn

/-- When a load ends, the creation time is as before or that of its file. -/
theorem Timed.ends {h : History} (htimed : h.Timed) (hsound : h.Sound) {source : Source}
    {id : LoadId} {t : LoadTask} {r : Except LoadError Loaded} (ht : h.store.tasks[id]? = some t)
    (hpending : t.result? = none)
    (hext : Extends h.store.contents (h.store.poll source id).contents)
    (hends : h.store.Ends source id t r (h.store.poll source id)) :
    (h.step (.poll source id)).Timed := by
  obtain ⟨s', htakes, hpoll⟩ := hends.takes
  have htime : (h.store.poll source id).creationTime? =
      h.store.creationTime?.or (t.timeFrom? source) := by
    rw [hpoll, ← htakes.creationTime?_eq]
    cases r <;> rfl
  have hgen : (h.store.poll source id).generation = h.store.generation := by
    rw [hpoll, ← htakes.generation_eq]
    cases r <;> rfl
  cases hbefore : h.store.creationTime? with
  | some time =>
    rw [hbefore, Option.some_or, ← hbefore] at htime
    exact htimed.of_extends source hext htime hgen
  | none =>
    rw [hbefore, Option.none_or] at htime
    intro time hsome
    have hfile : t.timeFrom? source = some time := htime.symm.trans hsome
    have hstage : (h.store.poll source id).tasks[id]? = some { t with stage := .finished r } := by
      have hid : id < s'.tasks.size := htakes.tasks_eq ▸ (Array.getElem?_eq_some_iff.1 ht).1
      rw [hpoll]
      cases r <;> exact Array.getElem?_setIfInBounds_self_of_lt hid
    have hstarted : (h.step (.poll source id)).startedIn = h.startedIn :=
      started_eq_self (size_of_polls (polls_poll h.store source id))
    have hself := hsound.valid.current_of_pending ht hpending
    obtain ⟨bytes, hanswer, htimeIn⟩ := LoadTask.timeFrom?_eq_some hfile
    refine ⟨id, _, bytes, r, hstage, ?_, ?_, htimeIn, rfl, htakes.judged hbefore hfile⟩
    · rw [hstarted, hsound.dated.of_current hself]
      exact congrArg some hgen.symm
    · have hresult : h.store.contents.result? id = none :=
        (congrArg (·.bind LoadTask.result?) ht).trans hpending
      change recorded source h.store.contents (h.store.poll source id).contents h.fetched id = _
      have hstage : (h.store.poll source id).contents.tasks[id]? = _ := hstage
      simp [recorded, hstage, hresult, hanswer, LoadTask.result?]

private theorem Timed.poll {h : History} (htimed : h.Timed) (hsound : h.Sound) (source : Source)
    (id : LoadId) : (h.step (.poll source id)).Timed := by
  have hpolls := polls_poll h.store source id
  have hext := extends_of_polls hpolls
  have hsame (hself : h.store.poll source id = h.store) : (h.step (.poll source id)).Timed :=
    htimed.of_extends source hext (congrArg CardStore.creationTime? hself)
      (congrArg CardStore.generation hself)
  cases ht : h.store.tasks[id]? with
  | none => exact hsame (poll_eq_self source fun t ht' => nomatch ht.symm.trans ht')
  | some t =>
    cases hpending : t.result? with
    | some r =>
      refine hsame (poll_eq_self source fun t' ht' hnone => ?_)
      obtain rfl := Option.some.inj (ht.symm.trans ht')
      exact nomatch hpending.symm.trans hnone
    | none =>
      rcases ends_poll source ht hpending with ⟨hnone, htime⟩ | ⟨r, hends⟩ | hcleared
      · refine htimed.of_extends source hext htime ?_
        exact (generation_of_polls hpolls).resolve_right fun ⟨e, he⟩ => nomatch hnone.symm.trans he
      · exact htimed.ends hsound ht hpending hext hends
      · intro time hsome
        exact nomatch hcleared.2.symm.trans hsome

private theorem Timed.step {h : History} (htimed : h.Timed) (hsound : h.Sound) (x : StoreStep) :
    (h.step x).Timed := by
  have hrequest (target : LoadTarget) (source : Source) :
      (h.store.request target).1.contents.Timed
        (recorded source h.store.contents (h.store.request target).1.contents h.fetched)
        (started h.store.contents (h.store.request target).1.contents h.startedIn) := by
    have hrequests := requests_request h.store target
    exact htimed.of_extends source (extends_of_requests hrequests)
      (catalog_of_requests hrequests).2 (generation_of_requests hrequests)
  cases x with
  | property p => exact hrequest (h.store.targetOf p) (StoreStep.property p).source
  | sorter order => exact hrequest (.sorter order) (StoreStep.sorter order).source
  | poll source id => exact htimed.poll hsound source id
  | wait time => exact htimed.of_extends (StoreStep.wait time).source (.refl _) rfl rfl

private theorem Timed.run {h : History} (htimed : h.Timed) (hsound : h.Sound)
    (steps : List StoreStep) : (h.run steps).Timed := by
  induction steps generalizing h with
  | nil => exact htimed
  | cons x steps ih => exact ih (htimed.step hsound x) (sound_step hsound x)

/-- Whatever has happened to a store, a load that fails without clearing it leaves the columns and
the mark for the caches, and is current no more. The creation time is as before exactly if there was
one, or if the file carries none that can be read; and it is always that of the file of some load of
the generation, which ended well or failed for what the file holds. -/
theorem survives_failure (refetchInterval : Nat) (steps : List StoreStep) :
    let h := (start refetchInterval).run steps
    (∀ source id t e, h.store.tasks[id]? = some t → t.result? = none →
      (h.store.poll source id).result? id = some (.error e) →
      (h.store.poll source id).generation = h.store.generation →
      h.store.Survives source t (h.store.poll source id) ∧
        ((h.store.poll source id).creationTime? = h.store.creationTime? ↔
          h.store.creationTime? ≠ none ∨ t.timeFrom? source = none)) ∧
    h.Timed := by
  refine ⟨fun source id t e ht hpending hfailed hgen => ?_, ?_⟩
  · have hsurvives := survives_poll source ht hpending hfailed hgen
    exact ⟨hsurvives, hsurvives.creationTime?_eq_iff⟩
  · have htimed : (start refetchInterval).Timed := fun _ hsome => by cases hsome
    exact htimed.run (sound_start refetchInterval) steps

def undecodable : Source := fun _ => some (.ok (Bytes.ofText "[5,[\"one\"]]"))

/-- The creation time of a file is kept although its data are refused. -/
theorem survives_failure_undecodable :
    let h := (start 3600).run [.property .cmc, .poll undecodable 0]
    ((h.store.poll undecodable 0).creationTime? = h.store.creationTime? ↔
      h.store.creationTime? ≠ none ∨
        (⟨.column .cmc, "card_cmc.json", false, .fetching⟩ : LoadTask).timeFrom? undecodable = none) ∧
      h.store.creationTime? = none ∧ (h.store.poll undecodable 0).creationTime? = some 5 ∧
      (h.store.poll undecodable 0).catalog.length? = none :=
  ⟨((survives_failure 3600 [.property .cmc, .poll undecodable 0]).1 undecodable 0 _
    (.decode "card_cmc.json" .form) rfl rfl rfl rfl).2, rfl, rfl, rfl⟩

end History

end CardSearch
