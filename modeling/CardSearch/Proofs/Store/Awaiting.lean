import CardSearch.Proofs.Store.Rounds
import CardSearch.Proofs.Store.Snapshot

/-!
# Waiting for loads

Whoever waits holds loads that were current when the waiting began. They stay so until they fail
or the store is cleared, whatever others do to the store in between.
-/

namespace CardSearch

/-- The column that tells of a property: for being a reprint that of any property of versions. -/
def Property.ServedBy (p q : Property) : Prop := if p = .reprint then q ∈ perVersion else q = p

namespace CardStore

open Contents

variable {s s' s'' : CardStore} {source : Source} {fetched : Fetched} {id : LoadId} {g : Nat}
  {target : LoadTarget}

/-- Steps of a store with answers of one source: loads are asked for and polled, and events are
reported. -/
inductive Reaches (source : Source) (s : CardStore) : CardStore → Prop
  | refl : Reaches source s s
  | poll {s' : CardStore} (id : LoadId) (h : Reaches source s s') :
    Reaches source s (s'.poll source id)
  | property {s' : CardStore} (p : Property) (h : Reaches source s s') :
    Reaches source s (s'.requestProperty p).1
  | sorter {s' : CardStore} (order : SortOrder) (h : Reaches source s s') :
    Reaches source s (s'.requestSorter order).1
  | reports {s' s'' : CardStore} (hs : s''.contents = s'.contents) (h : Reaches source s s') :
    Reaches source s s''

theorem Reaches.trans (h : Reaches source s s') (h' : Reaches source s' s'') :
    Reaches source s s'' := by
  induction h' with
  | refl => exact h
  | poll id _ ih => exact .poll id ih
  | property p _ ih => exact .property p ih
  | sorter order _ ih => exact .sorter order ih
  | reports hs _ ih => exact .reports hs ih

theorem Reaches.extends (h : Reaches source s s') : s.contents.Extends s'.contents := by
  induction h with
  | refl => exact .refl _
  | poll id _ ih => exact ih.trans (extends_of_polls (polls_poll ..))
  | property p _ ih => exact ih.trans (extends_of_requests (requests_request ..))
  | sorter order _ ih => exact ih.trans (extends_of_requests (requests_request ..))
  | reports hs _ ih =>
    rw [hs]
    exact ih

theorem isStored_source {p : Property} (h : p ≠ .reprint) : p.source.isStored = true := by
  cases p <;> first | rfl | exact absurd rfl h

theorem targetOf_spec (h : s.contents.Linked) (p : Property) :
    ∃ q, p.ServedBy q ∧ s.targetOf p = .column q.source ∧ q.source.isStored = true := by
  by_cases hp : p = .reprint
  · cases hfind : Property.perVersion.find? (fun q => (s.current.lookup (.column q)).isSome) with
    | none =>
      refine ⟨.set, ?_, ?_, rfl⟩
      · rw [Property.ServedBy, if_pos hp]
        decide
      · rw [targetOf, if_pos hp, hfind]
        rfl
    | some q =>
      have hmem := List.mem_of_find?_eq_some hfind
      obtain ⟨id, hcurrent⟩ : ∃ id, (LoadTarget.column q, id) ∈ s.current := by
        simpa using List.find?_some hfind
      have hstored := h.stored hcurrent
      have hsource : q.source = q := by
        have hboth : (q.source == q && q != .reprint) = true := hstored
        simpa using (Bool.and_eq_true_iff.1 hboth).1
      refine ⟨q, ?_, ?_, hsource.symm ▸ hstored⟩
      · rw [Property.ServedBy, if_pos hp]
        exact hmem
      · rw [targetOf, if_pos hp, hfind, hsource]
        rfl
  · refine ⟨p, ?_, ?_, isStored_source hp⟩
    · rw [Property.ServedBy, if_neg hp]
    · rw [targetOf, if_neg hp]

theorem Reaches.valid (h : s.contents.Valid fetched) (hreach : Reaches source s s') :
    s'.contents.Valid (recorded source s.contents s'.contents fetched) := by
  induction hreach with
  | refl =>
    rw [recorded_self]
    exact h
  | @poll s' id hreach ih =>
    have hpoll := polls_poll s' source id
    rw [← recorded_recorded hreach.extends (extends_of_polls hpoll)]
    exact ih.polls hpoll
  | @property s' p hreach ih =>
    have hrequest := requests_request s' (s'.targetOf p)
    obtain ⟨q, -, htarget, hstored⟩ := targetOf_spec ih.toLinked p
    have hnext := ih.requests source hrequest fun p' hp' => by
      rw [htarget] at hp'
      cases hp'
      exact hstored
    rwa [recorded_recorded hreach.extends (extends_of_requests hrequest)] at hnext
  | @sorter s' order hreach ih =>
    have hrequest := requests_request s' (.sorter order)
    have hnext := ih.requests source hrequest fun p hp => by cases hp
    rwa [recorded_recorded hreach.extends (extends_of_requests hrequest)] at hnext
  | reports hs _ ih =>
    rw [hs]
    exact ih

end CardStore

namespace Contents

variable {c c' : Contents} {source : Source} {id j : LoadId} {g : Nat} {target : LoadTarget}

/-- A load of a target that was current in a generation of the store: it still is, or has failed,
unless the store was cleared since. -/
structure Held (c : Contents) (g : Nat) (target : LoadTarget) (id : LoadId) : Prop where
  task : ∃ t, c.tasks[id]? = some t ∧ t.target = target
  generation_le : g ≤ c.generation
  current : c.generation = g → (target, id) ∈ c.current ∨ ∃ e, c.result? id = some (.error e)

theorem Held.of_extends (h : c.Held g target id) (hext : Extends c c')
    (hcurrent : c'.generation = g → c.generation = g ∧
      ((target, id) ∈ c.current → (target, id) ∈ c'.current ∨ ∃ e, c'.result? id = some (.error e))) :
    c'.Held g target id where
  task := by
    obtain ⟨t, ht, htarget⟩ := h.task
    obtain ⟨t', ht', htarget', -⟩ := hext.task ht
    exact ⟨t', ht', htarget'.trans htarget⟩
  generation_le := Nat.le_trans h.generation_le hext.generation_le
  current hgen := by
    obtain ⟨hgen, hnext⟩ := hcurrent hgen
    rcases h.current hgen with hid | ⟨e, he⟩
    · exact hnext hid
    · exact .inr ⟨e, hext.result_eq he⟩

private theorem Held.polls (hc : c.Linked) (h : c.Held g target id) (hpoll : c.Polls source j c') :
    c'.Held g target id := by
  refine h.of_extends (extends_of_polls hpoll) fun hgen => ?_
  rcases hpoll.cases with rfl | ⟨t, stage, hr⟩ | ⟨t, e, ht, hpending, rfl⟩
  · exact ⟨hgen, .inl⟩
  · refine ⟨hr.generation_eq.symm.trans hgen, fun hid => ?_⟩
    by_cases hfailed : ∃ e, stage = .finished (.error e) ∧ target = t.target
    · -- the only current load of the target is the one that failed
      obtain ⟨e, rfl, rfl⟩ := hfailed
      obtain rfl := hc.unique hid (hc.current_of_pending hr.task hr.pending)
      refine .inr ⟨e, ?_⟩
      rw [hr.result_eq, if_pos rfl]
      rfl
    · exact .inl ((hr.current_iff _).2 ⟨hid, fun e he htarget => hfailed ⟨e, he, htarget⟩⟩)
  · exact absurd (hgen ▸ h.generation_le) (Nat.not_succ_le_self _)

private theorem Held.requests {other : LoadTarget} (h : c.Held g target id)
    (hrequest : c.Requests other c' j) : c'.Held g target id := by
  refine h.of_extends (extends_of_requests hrequest) fun hgen => ?_
  cases hrequest with
  | current => exact ⟨hgen, .inl⟩
  | started => exact ⟨hgen, fun hid => .inl (List.mem_cons_of_mem _ hid)⟩

theorem held_of_requests (h : c.Linked) (hrequest : c.Requests target c' id) :
    c'.Held c'.generation target id := by
  obtain ⟨hid, -⟩ := mem_of_requests hrequest
  cases hrequest with
  | current =>
    obtain ⟨t, ht, htarget, -⟩ := h.task_of_current hid
    exact ⟨⟨t, ht, htarget⟩, Nat.le_refl _, fun _ => .inl hid⟩
  | @started t _ htarget =>
    exact ⟨⟨t, by simp, htarget⟩, Nat.le_refl _, fun _ => .inl hid⟩

end Contents

namespace CardStore

open Contents

variable {s s' : CardStore} {source : Source} {fetched : Fetched} {g : Nat}

theorem Reaches.held {target : LoadTarget} {id : LoadId} (hreach : Reaches source s s')
    (h : s.contents.Valid fetched) (hheld : s.contents.Held g target id) :
    s'.contents.Held g target id := by
  induction hreach with
  | refl => exact hheld
  | poll _ hreach ih => exact ih.polls (hreach.valid h).toLinked (polls_poll ..)
  | property _ _ ih | sorter _ _ ih => exact ih.requests (requests_request ..)
  | reports hs _ ih =>
    rw [hs]
    exact ih

/-- Asking for properties gives a held load for each of them. -/
theorem requestProperties_spec (source : Source) (h : s.contents.Valid fetched)
    (ps : List Property) :
    Reaches source s (s.requestProperties ps).1 ∧
      (s.requestProperties ps).1.generation = s.generation ∧
      ∀ p ∈ ps, ∃ id ∈ (s.requestProperties ps).2, ∃ q, p.ServedBy q ∧
        (s.requestProperties ps).1.contents.Held s.generation (.column q.source) id := by
  induction ps generalizing s fetched with
  | nil => exact ⟨.refl, rfl, fun p hp => by cases hp⟩
  | cons p ps ih =>
    have hfirst : Reaches source s (s.requestProperty p).1 := .property p .refl
    obtain ⟨q, hserved, htarget, -⟩ := targetOf_spec h.toLinked p
    have hrequest := requests_request s (s.targetOf p)
    have hgen : (s.requestProperty p).1.generation = s.generation :=
      generation_of_requests hrequest
    have hheld : (s.requestProperty p).1.contents.Held s.generation (.column q.source)
        (s.requestProperty p).2 := by
      have hheld := held_of_requests h.toLinked hrequest
      rw [generation_of_requests hrequest] at hheld
      exact htarget ▸ hheld
    obtain ⟨hrest, hgen', hall⟩ := ih (hfirst.valid h)
    rw [hgen] at hgen' hall
    simp only [requestProperties]
    refine ⟨hfirst.trans hrest, hgen', fun p' hp' => ?_⟩
    rcases List.mem_cons.1 hp' with rfl | hp'
    · refine ⟨_, List.mem_cons_self, q, hserved, hrest.held (hfirst.valid h) hheld⟩
    · obtain ⟨id, hid, hheld⟩ := hall p' hp'
      exact ⟨id, List.mem_cons_of_mem _ hid, hheld⟩

/-- A load that has not failed when it is polled has not cleared the store. -/
theorem generation_poll (s : CardStore) (source : Source) (id : LoadId)
    (h : ∀ e, (s.poll source id).result? id ≠ some (.error e)) :
    (s.poll source id).generation = s.generation :=
  (generation_of_polls (polls_poll s source id)).resolve_right fun ⟨e, he⟩ => h e he

def EndedWell (s : CardStore) (as : List Awaited) : Prop :=
  ∀ a ∈ as, a.done = true → ∃ l, s.result? a.load = some (.ok l)

theorem EndedWell.reaches {as : List Awaited} (h : s.EndedWell as)
    (hreach : Reaches source s s') : s'.EndedWell as := fun a ha hdone => by
  obtain ⟨l, hl⟩ := h a ha hdone
  exact ⟨l, hreach.extends.result_eq hl⟩

structure PollsAll (source : Source) (s : CardStore) (as : List Awaited)
    (r : CardStore × Except LoadError (List Awaited)) : Prop where
  reaches : Reaches source s r.1
  generation_eq {as' : List Awaited} : r.2 = .ok as' → r.1.generation = s.generation
  loads_eq {as' : List Awaited} : r.2 = .ok as' → as'.map Awaited.load = as.map Awaited.load
  ended {as' : List Awaited} : r.2 = .ok as' → s.EndedWell as → r.1.EndedWell as'

/-- The first load is done with, and the others are polled. -/
theorem PollsAll.cons {a a' : Awaited} {as : List Awaited}
    {r : CardStore × Except LoadError (List Awaited)} (hreach : Reaches source s s')
    (hgen : s'.generation = s.generation) (hload : a'.load = a.load)
    (hended : s.EndedWell [a] → s'.EndedWell [a']) (h : PollsAll source s' as r) :
    PollsAll source s (a :: as) (r.1, r.2.map (a' :: ·)) := by
  obtain ⟨s'', _ | as'⟩ := r
  · exact ⟨hreach.trans h.reaches, fun h => (by cases h), fun h => (by cases h), fun h => (by cases h)⟩
  · refine ⟨hreach.trans h.reaches, fun _ => (h.generation_eq rfl).trans hgen, fun heq => ?_,
      fun heq hall => ?_⟩
    · cases heq
      rw [List.map_cons, List.map_cons, hload, h.loads_eq rfl]
    · cases heq
      obtain ⟨hfirst, hrest⟩ := List.forall_mem_cons.1 hall
      have hfirst : s.EndedWell [a] := List.forall_mem_singleton.2 hfirst
      have hfirst := (hended hfirst).reaches h.reaches
      exact List.forall_mem_cons.2 ⟨List.forall_mem_singleton.1 hfirst,
        h.ended rfl (EndedWell.reaches hrest hreach)⟩

/-- Polling what is waited for clears the store only if it fails, and finds out which of the loads
have ended well. -/
theorem pollsAll_pollAll (source : Source) (s : CardStore) (as : List Awaited) :
    PollsAll source s as (s.pollAll source as) := by
  induction as generalizing s with
  | nil => exact ⟨.refl, fun _ => rfl, fun h => by cases h; rfl, fun h => by cases h; exact id⟩
  | cons a as ih =>
    have hreach : Reaches source s (s.poll source a.load) := .poll a.load .refl
    rcases pollAll_cons source s a as with ⟨e, -, heq⟩ | ⟨s₁, a', hone, heq⟩
    · rw [heq]
      exact ⟨hreach, fun h => (by cases h), fun h => (by cases h), fun h => (by cases h)⟩
    · rw [heq]
      cases hone with
      | passed hdone => exact .cons .refl rfl rfl id (ih s)
      | @ended l hdone hl =>
        have hgen := s.generation_poll source a.load (by simp [hl])
        exact .cons hreach hgen rfl (fun _ => List.forall_mem_singleton.2 fun _ => ⟨l, hl⟩) (ih _)
      | pending hdone hnone =>
        have hgen := s.generation_poll source a.load (by simp [hnone])
        exact .cons hreach hgen rfl (fun h => h.reaches hreach) (ih _)

end CardStore

namespace Waiting

open CardStore

variable {s s' : CardStore} {source : Source} {fetched : Fetched} {g : Nat} {w w' : Waiting}
  {needed : List Property} {order : SortOrder}

/-- The loads that are waited for are held since a generation of the store, one for each property
that is needed and one for the order. -/
structure Sound (s : CardStore) (w : Waiting) (needed : List Property) (order : SortOrder)
    (g : Nat) : Prop where
  column {p : Property} : p ∈ needed → ∃ id ∈ w.columns.map Awaited.load, ∃ q, p.ServedBy q ∧
    s.contents.Held g (.column q.source) id
  sorter : s.contents.Held g (.sorter order) w.sorter
  ended : s.EndedWell w.columns
  seen {x : Sorter} : w.sorterSeen = some x → s.result? w.sorter = some (.ok (.sorter x))

structure Ready (s : CardStore) (w : Waiting) (x : Sorter) : Prop where
  columns {id : LoadId} : id ∈ w.columns.map Awaited.load → ∃ l, s.result? id = some (.ok l)
  sorter : s.result? w.sorter = some (.ok (.sorter x))

theorem Sound.reaches (h : w.Sound s needed order g) (hvalid : s.contents.Valid fetched)
    (hreach : Reaches source s s') : w.Sound s' needed order g where
  column hp := by
    obtain ⟨id, hid, q, hserved, hheld⟩ := h.column hp
    exact ⟨id, hid, q, hserved, hreach.held hvalid hheld⟩
  sorter := hreach.held hvalid h.sorter
  ended := h.ended.reaches hreach
  seen hx := hreach.extends.result_eq (h.seen hx)

theorem Ready.reaches {x : Sorter} (h : w.Ready s x) (hreach : Reaches source s s') :
    w.Ready s' x where
  columns hid := by
    obtain ⟨l, hl⟩ := h.columns hid
    exact ⟨l, hreach.extends.result_eq hl⟩
  sorter := hreach.extends.result_eq h.sorter

theorem sound_begin (source : Source) (hvalid : s.contents.Valid fetched) (needed : List Property)
    (order : SortOrder) :
    Reaches source s (Waiting.begin s needed order).1 ∧
      (Waiting.begin s needed order).2.Sound (Waiting.begin s needed order).1 needed order
        (Waiting.begin s needed order).1.generation := by
  have hrequest := requests_request s (.sorter order)
  have hfirst : Reaches source s (s.requestSorter order).1 := .sorter order .refl
  have hvalid' := hfirst.valid hvalid
  obtain ⟨hrest, hgen, hall⟩ := requestProperties_spec source hvalid' needed
  simp only [Waiting.begin]
  refine ⟨hfirst.trans hrest, fun {p} hp => ?_, ?_, ?_, fun h => by cases h⟩
  · obtain ⟨id, hid, q, hserved, hheld⟩ := hall p hp
    exact ⟨id, List.mem_map.2 ⟨{ load := id }, List.mem_map_of_mem hid, rfl⟩, q, hserved,
      hgen.symm ▸ hheld⟩
  · rw [hgen]
    exact hrest.held hvalid' (Contents.held_of_requests hvalid.toLinked hrequest)
  · intro a ha hdone
    obtain ⟨id, -, rfl⟩ := List.mem_map.1 ha
    cases hdone

/-- Whatever is waited for, polling it takes steps of the store only. -/
theorem reaches_poll (source : Source) (s : CardStore) (w : Waiting) :
    Reaches source s (w.poll source s).1 :=
  poll_of_polls (fun h id => .poll id h) .refl w

/-- What polling what is waited for comes to: more waiting, or all of it has ended well, or a
failure. Only a failure comes with a clearing of the store. -/
inductive Goes (source : Source) (s : CardStore) (w : Waiting) (needed : List Property)
    (order : SortOrder) (g : Nat) : CardStore × Progress Waiting Sorter → Prop
  | pending {s' : CardStore} {w' : Waiting} (hreach : Reaches source s s')
    (hgen : s'.generation = s.generation) (h : w'.Sound s' needed order g) :
    Goes source s w needed order g (s', .pending w')
  | ready {s' : CardStore} {w' : Waiting} {x : Sorter} (hreach : Reaches source s s')
    (hgen : s'.generation = s.generation) (h : w'.Sound s' needed order g) (hready : w'.Ready s' x) :
    Goes source s w needed order g (s', .ready x)
  | failed {s' : CardStore} {e : LoadError} (hreach : Reaches source s s') :
    Goes source s w needed order g (s', .failed e)

/-- Once all columns have ended well, the sorter decides. -/
theorem goes_settle {x : Sorter} (hreach : Reaches source s s')
    (hgen : s'.generation = s.generation) (h : w'.Sound s' needed order g)
    (hx : s'.result? w'.sorter = some (.ok (.sorter x))) :
    Goes source s w needed order g (w'.settle s' x) := by
  unfold settle
  split
  · next hall =>
    refine .ready hreach hgen h ⟨fun hid => ?_, hx⟩
    obtain ⟨a, ha, rfl⟩ := List.mem_map.1 hid
    exact h.ended a ha (List.all_eq_true.1 hall a ha)
  · exact .pending hreach hgen { h with seen := fun hy => Option.some.inj hy ▸ hx }

theorem result_of_sound {l : Loaded} (hvalid : s.contents.Valid fetched)
    (h : w.Sound s needed order g) (hl : s.result? w.sorter = some (.ok l)) :
    l = .sorter (sorterOf l) ∧ (sorterOf l).order? = some order := by
  obtain ⟨t, ht, htarget⟩ := h.sorter.task
  have hresult : t.result? = some (.ok l) := by
    have hl : s.contents.tasks[w.sorter]?.bind LoadTask.result? = some (.ok l) := hl
    rwa [ht] at hl
  obtain ⟨x, rfl, horder⟩ := hvalid.order ht htarget hresult
  exact ⟨rfl, horder⟩

theorem goes_poll (source : Source) (hvalid : s.contents.Valid fetched) (h : w.Sound s needed order g) :
    Goes source s w needed order g (w.poll source s) := by
  -- after a round over the columns the same is waited for, only that more of it is known to have ended
  have hcolumns {s' : CardStore} {columns : List Awaited}
      (heq : s.pollAll source w.columns = (s', .ok columns)) :
      Reaches source s s' ∧ s'.generation = s.generation ∧
        ({ w with columns } : Waiting).Sound s' needed order g := by
    have hall := pollsAll_pollAll source s w.columns
    rw [heq] at hall
    have hs' := h.reaches hvalid hall.reaches
    refine ⟨hall.reaches, hall.generation_eq rfl,
      { hs' with ended := hall.ended rfl h.ended, column := fun {p} hp => ?_ }⟩
    obtain ⟨id, hid, hheld⟩ := hs'.column hp
    exact ⟨id, (hall.loads_eq rfl).symm ▸ hid, hheld⟩
  have hreach := reaches_poll source s w
  have hpolls := w.polls_poll source s
  generalize w.poll source s = r at hreach hpolls ⊢
  cases hpolls with
  | failed => exact .failed hreach
  | seen heq hseen =>
    obtain ⟨hreach', hgen, hsound⟩ := hcolumns heq
    exact goes_settle hreach' hgen hsound (hsound.seen hseen)
  | sorterFailed => exact .failed hreach
  | @sorterEnded s' _ l heq _ hl =>
    obtain ⟨hreach', hgen, hsound⟩ := hcolumns heq
    have hpoll : Reaches source s' (s'.poll source w.sorter) := .poll w.sorter .refl
    have hvalid' := hreach'.valid hvalid
    have hsound' := hsound.reaches hvalid' hpoll
    have hgen' := s'.generation_poll source w.sorter (by simp [hl])
    obtain ⟨hsorter, -⟩ := result_of_sound (hpoll.valid hvalid') hsound' hl
    exact goes_settle (hreach'.trans hpoll) (hgen'.trans hgen) hsound' (hsorter ▸ hl)
  | @pending s' _ heq _ hnone =>
    obtain ⟨hreach', hgen, hsound⟩ := hcolumns heq
    have hpoll : Reaches source s' (s'.poll source w.sorter) := .poll w.sorter .refl
    have hgen' := s'.generation_poll source w.sorter (by simp [hnone])
    exact .pending (hreach'.trans hpoll) (hgen'.trans hgen)
      (hsound.reaches (hreach'.valid hvalid) hpoll)

end Waiting

end CardSearch
