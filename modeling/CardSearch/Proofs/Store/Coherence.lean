import CardSearch.Proofs.Store.Completion

/-!
# What is kept by all steps of a store

Whoever asks for loads and polls them, over whatever a source answers: the columns of a store come
from its loads, its loads are of the files of their targets, and its catalog was filled from decoded
data. So a store in which nothing of a file is loaded is as good as one that was never used. Someone
who asks for what a search needs brings no load underway that is of anything else.
-/

namespace CardSearch

namespace Catalog

variable {c : Catalog}

theorem Reachable.exists_column (h : c.Reachable) {n : Nat} (hn : c.length? = some n) :
    ∃ q column, c.columns.get? q = some column := by
  cases h with
  | cleared => cases hn
  | @insert c _ p _ _ heq =>
    obtain ⟨values, hstored, -, rfl⟩ := insert_eq_ok heq
    have hsource : p.source = p := by
      have hboth : (p.source == p && p != .reprint) = true := hstored
      simpa using (Bool.and_eq_true_iff.1 hboth).1
    exact ⟨p, _, (get?_putStored c hstored values.toArray p).trans (if_pos hsource)⟩

theorem Reachable.eq_empty (h : c.Reachable) (hnone : ∀ q, c.columns.get? q = none) : c = ∅ := by
  refine Catalog.ext (fun q => (hnone q).trans (PropertyMap.get?_empty q).symm) ?_
  cases hlength : c.length? with
  | none => rfl
  | some n =>
    obtain ⟨q, column, hcolumn⟩ := h.exists_column hlength
    exact nomatch (hnone q).symm.trans hcolumn

end Catalog

open CardStore Contents

/-- The catalog of a store stays one that was filled from decoded data. -/
theorem Contents.reachable_of_polls {c c' : Contents} {source : Source} {id : LoadId}
    (h : c.catalog.Reachable) (hpoll : c.Polls source id c') : c'.catalog.Reachable := by
  cases hpoll with
  | same => exact h
  | fetching | sorter => exact h
  | failed _ _ hc₁ => rcases hc₁ with rfl | ⟨_, -, rfl⟩ <;> exact h
  | cleared => exact .cleared
  | column _ _ _ _ _ _ hinsert => exact h.insert hinsert

namespace CardStore

variable {s s' : CardStore} {source : Source} {id : LoadId} {t : LoadTask} {target : LoadTarget}
  {needed : List Property} {order : SortOrder}

def ByName (s : CardStore) : Prop := ∀ (id : LoadId) (t : LoadTask), s.tasks[id]? = some t →
  t.target.file? = none → t.result? = some (.ok (.sorter .name))

private theorem ByName.poll (h : s.ByName) (source : Source) (id : LoadId) :
    (s.poll source id).ByName := by
  intro j t' ht' hnone
  obtain ⟨t, ht, htarget, -, hresult⟩ := task_of_polls (polls_poll s source id) ht'
  have hname := h j t ht (htarget ▸ hnone)
  rw [hresult (by simp [hname]), hname]

private theorem ByName.request (h : s.ByName) (target : LoadTarget) :
    (s.request target).1.ByName := by
  unfold CardStore.request
  split
  · exact h
  · intro j t ht hnone
    have ht : (s.tasks.push _)[j]? = some t := ht
    rw [Array.getElem?_push] at ht
    split at ht
    · cases ht
      cases target with
      | column p => cases hnone
      | sorter order =>
        cases order with
        | name => rfl
        | cmc | releasedAt => cases hnone
    · exact h j t ht hnone

structure Coherent (s : CardStore) : Prop where
  valid : ∃ fetched, s.contents.Valid fetched
  backed : s.contents.Backed
  named : s.NamesFiles
  byName : s.ByName
  reachable : s.contents.catalog.Reachable

namespace Coherent

theorem linked (h : s.Coherent) : s.contents.Linked := by
  obtain ⟨fetched, hvalid⟩ := h.valid
  exact hvalid.toLinked

theorem of_contents_eq (h : s.Coherent) (heq : s'.contents = s.contents) : s'.Coherent := by
  have htasks : s'.tasks = s.tasks := congrArg Contents.tasks heq
  refine ⟨heq ▸ h.valid, heq ▸ h.backed, ?_, ?_, heq ▸ h.reachable⟩
  · unfold NamesFiles
    rw [htasks]
    exact h.named
  · unfold ByName
    rw [htasks]
    exact h.byName

theorem poll (h : s.Coherent) (source : Source) (id : LoadId) : (s.poll source id).Coherent := by
  have hpoll := polls_poll s source id
  obtain ⟨fetched, hvalid⟩ := h.valid
  exact ⟨⟨_, hvalid.polls hpoll⟩, h.backed.polls h.linked hpoll, h.named.poll source id,
    h.byName.poll source id, reachable_of_polls h.reachable hpoll⟩

theorem request (h : s.Coherent) (hstored : ∀ p, target = .column p → p.isStored = true) :
    (s.request target).1.Coherent := by
  have hrequest := requests_request s target
  obtain ⟨fetched, hvalid⟩ := h.valid
  refine ⟨⟨_, hvalid.requests (fun _ => none) hrequest hstored⟩, h.backed.requests hrequest,
    h.named.request target, h.byName.request target, ?_⟩
  rw [(catalog_of_requests hrequest).1]
  exact h.reachable

private theorem requestProperty (h : s.Coherent) (p : Property) :
    (s.requestProperty p).1.Coherent := by
  refine h.request fun q hq => ?_
  obtain ⟨q', -, htarget, hstored⟩ := targetOf_spec h.linked p
  cases htarget.symm.trans hq
  exact hstored

theorem reaches (h : s.Coherent) (hreach : Reaches source s s') : s'.Coherent := by
  induction hreach with
  | refl => exact h
  | poll id _ ih => exact ih.poll source id
  | property p _ ih => exact ih.requestProperty p
  | sorter order _ ih => exact ih.request nofun
  | reports hs _ ih => exact ih.of_contents_eq hs

theorem result?_ne_error (h : s.Coherent) (hid : (target, id) ∈ s.contents.current)
    (e : LoadError) : s.result? id ≠ some (.error e) := by
  obtain ⟨t, ht, -, hok⟩ := h.linked.task_of_current hid
  rw [result?_of_task ht]
  exact hok e

theorem catalog_eq_empty (h : s.Coherent)
    (hfree : ∀ y ∈ s.contents.current, y.1.file? = none) : s.contents.catalog = ∅ := by
  refine h.reachable.eq_empty fun q => ?_
  cases hcolumn : s.contents.catalog.columns.get? q with
  | none => rfl
  | some column =>
    obtain ⟨id, -, hid, -⟩ := h.backed q column hcolumn
    cases hfree _ hid

theorem file?_eq (h : s.Coherent) (ht : s.contents.tasks[id]? = some t) (hpending : t.result? = none) :
    t.target.file? = some t.file :=
  (h.named id t ht).resolve_right fun ⟨_, _, hended⟩ => hended hpending

end Coherent

theorem coherent_start (refetchInterval : Nat) : Coherent { refetchInterval } where
  valid := ⟨_, (History.sound_start refetchInterval).valid⟩
  backed q column hcolumn := nomatch (PropertyMap.get?_empty q).symm.trans hcolumn
  named := (History.sound_start refetchInterval).named
  byName _ _ ht := by simp at ht
  reachable := .cleared

theorem poll_of_result {r : Except LoadError Loaded} (h : s.result? id = some r) (source : Source) :
    s.poll source id = s := by
  obtain ⟨t, ht, hended⟩ := Option.bind_eq_some_iff.1 h
  refine poll_eq_self source fun u hu => ?_
  cases ht.symm.trans hu
  rw [hended]
  exact Option.some_ne_none r

structure Asks (needed : List Property) (order : SortOrder) (s : CardStore) : Prop
    extends Coherent s where
  asked {id : LoadId} {t : LoadTask} : s.contents.tasks[id]? = some t → t.result? = none →
    t.target.AskedFor needed order

namespace Asks

theorem of_contents_eq (h : s.Asks needed order) (heq : s'.contents = s.contents) :
    s'.Asks needed order :=
  ⟨h.toCoherent.of_contents_eq heq, fun ht => h.asked (heq ▸ ht)⟩

theorem poll (h : s.Asks needed order) (source : Source) (id : LoadId) :
    (s.poll source id).Asks needed order := by
  refine ⟨h.toCoherent.poll source id, fun {j t'} ht' hpending => ?_⟩
  obtain ⟨t, ht, htarget, -, hresult⟩ := task_of_polls (polls_poll s source id) ht'
  rw [htarget]
  refine h.asked ht (Classical.byContradiction fun hended => ?_)
  exact hended (hresult hended ▸ hpending)

theorem request (h : s.Asks needed order) (htarget : target.AskedFor needed order) :
    (s.request target).1.Asks needed order := by
  have hrequest := requests_request s target
  refine ⟨h.toCoherent.request fun p hp => ?_, fun {j t} ht hpending => ?_⟩
  · subst hp
    exact Property.LoadedFor.isStored htarget
  · generalize (s.request target).1.contents = c', (s.request target).2 = id at *
    cases hrequest with
    | current => exact h.asked ht hpending
    | @started u _ hu =>
      have ht : (s.contents.tasks.push u)[j]? = some t := ht
      rw [Array.getElem?_push] at ht
      split at ht
      · cases ht
        exact hu ▸ htarget
      · exact h.asked ht hpending

theorem begin (h : s.Asks needed order)
    (hsorted : needed.Pairwise (fun p q => p.index < q.index)) :
    (Waiting.begin s needed order).1.Asks needed order :=
  begin_of_askedFor (fun h htarget => h.request htarget) h hsorted

theorem pollAll (h : s.Asks needed order) (source : Source) (as : List Awaited) :
    (s.pollAll source as).1.Asks needed order :=
  pollAll_of_polls (fun h => h.poll source) h as

theorem waiting (h : s.Asks needed order) (source : Source) (w : Waiting) :
    (w.poll source s).1.Asks needed order :=
  poll_of_polls (fun h => h.poll source) h w

end Asks

end CardStore

end CardSearch
