import CardSearch.Proofs.Store.Coherence
import CardSearch.Proofs.Store.Failures

/-!
# Loads come to an end

Over a source that answers, a load has ended after it was polled twice: the first poll starts its
fetch, the second one takes in the answer. So what is waited for is settled, well or not, in as many
rounds as the load that is furthest from its end has left.
-/

namespace CardSearch

/-- How often a load has yet to be polled, over a source that answers. -/
def LoadStage.left : LoadStage → Nat
  | requested => 2
  | fetching => 1
  | finished _ => 0

theorem LoadTask.left_of_pending {t : LoadTask} (h : t.result? = none) : 1 ≤ t.stage.left := by
  obtain ⟨target, file, reload, stage⟩ := t
  cases stage with
  | requested => exact Nat.le_succ 1
  | fetching => exact Nat.le_refl 1
  | finished r => cases h

theorem LoadTask.left_of_ended {t : LoadTask} (h : t.result? ≠ none) : t.stage.left = 0 := by
  obtain ⟨target, file, reload, stage⟩ := t
  cases stage with
  | requested | fetching => exact absurd rfl h
  | finished r => rfl

open CardStore Contents

theorem FileSet.FoundIn.answers {files : FileSet} {source : Source} {needed : List Property}
    {order : SortOrder} {target : LoadTarget} {file : String}
    (h : files.FoundIn source needed order) (htarget : target.AskedFor needed order)
    (hfile : target.file? = some file) : ∃ bytes, source file = some (.ok bytes) := by
  cases target with
  | column p =>
    obtain ⟨bytes, -, hbytes, -⟩ := h.file htarget
    cases hfile
    exact ⟨bytes, hbytes⟩
  | sorter other =>
    obtain rfl : other = order := htarget
    obtain ⟨bytes, -, hbytes, -⟩ := h.index hfile
    exact ⟨bytes, hbytes⟩

namespace CardStore

variable {s s' : CardStore} {source : Source} {id j : LoadId} {t : LoadTask} {n : Nat}
  {needed : List Property} {order : SortOrder} {files : FileSet} {w w' : Waiting}

def Nears (s : CardStore) (n : Nat) (id : LoadId) : Prop :=
  ∃ t, s.contents.tasks[id]? = some t ∧ t.stage.left ≤ n

private theorem Nears.ended (h : s.Nears 0 id) : s.result? id ≠ none := by
  obtain ⟨t, ht, hleft⟩ := h
  intro hnone
  have hpending : t.result? = none := (result?_of_task ht).symm.trans hnone
  exact absurd (Nat.le_trans (LoadTask.left_of_pending hpending) hleft) (Nat.not_succ_le_zero 0)

/-- Whatever load is polled, none is taken back. -/
theorem Nears.poll (h : s.Nears n j) (source : Source) (id : LoadId) :
    (s.poll source id).Nears n j := by
  obtain ⟨t, ht, hleft⟩ := h
  have hpoll := polls_poll s source id
  unfold Nears
  generalize (s.poll source id).contents = c' at hpoll ⊢
  have hrestages {u : LoadTask} {stage : LoadStage} {c' : Contents}
      (hr : Restages s.contents id u stage c') (hstage : stage.left ≤ u.stage.left) :
      ∃ t', c'.tasks[j]? = some t' ∧ t'.stage.left ≤ n := by
    rw [hr.getElem?_tasks]
    split
    · next heq =>
      subst heq
      cases hr.task.symm.trans ht
      exact ⟨_, rfl, Nat.le_trans hstage hleft⟩
    · exact ⟨t, ht, hleft⟩
  cases hpoll with
  | same => exact ⟨t, ht, hleft⟩
  | fetching hu hpending =>
    exact hrestages (restages_withStage hu hpending rfl rfl rfl nofun)
      (LoadTask.left_of_pending hpending)
  | failed hu hpending hc₁ =>
    rcases hc₁ with rfl | ⟨time, -, rfl⟩ <;>
      exact hrestages (restages_failed hu hpending rfl rfl rfl) (Nat.zero_le _)
  | column hu hpending | sorter hu hpending =>
    exact hrestages (restages_withStage hu hpending rfl rfl rfl nofun) (Nat.zero_le _)
  | @cleared u e hu hpending =>
    obtain ⟨r, hget, hr⟩ := getElem?_clearedBy hu hpending e j
    rw [ht, Option.map_some] at hget
    refine ⟨r t, hget, ?_⟩
    rcases (hr t ht).2.2 with ⟨-, hsame⟩ | ⟨-, e, herror⟩
    · rwa [hsame]
    · rw [LoadTask.left_of_ended (by simp [herror])]
      exact Nat.zero_le n

theorem Nears.pollAll (h : s.Nears n j) (source : Source) (as : List Awaited) :
    (s.pollAll source as).1.Nears n j :=
  pollAll_of_polls (P := fun s => s.Nears n j) (fun h id => h.poll source id) h as

/-- A load whose fetch is answered has ended. -/
theorem result?_poll_ne_none (ht : s.tasks[id]? = some t) (hstage : t.stage = .fetching)
    {bytes : List UInt8} (hanswer : source t.file = some (.ok bytes)) :
    (s.poll source id).result? id ≠ none := by
  have hpoll : s.poll source id = s.finish id t (.ok bytes) := by
    rw [poll, ht]
    simp only [hstage, hanswer]
  have hgen := generation_of_polls (polls_poll s source id)
  rw [hpoll] at hgen ⊢
  rcases takes_accept s t.target t.file bytes with htakes | hcleared
  · exact Option.ne_none_iff_exists'.2 ⟨_, result?_settle (htakes.tasks_eq ▸ ht)⟩
  · obtain ⟨e, he⟩ := hgen.resolve_left fun hsame =>
      Nat.succ_ne_self _ (hcleared.settle.1.symm.trans hsame)
    exact Option.ne_none_iff_exists'.2 ⟨_, he⟩

/-- Over a source that answers, a load that is polled comes one step on. -/
theorem Asks.nears_poll (h : s.Asks needed order) (hfound : files.FoundIn source needed order)
    (hnears : s.Nears (n + 1) id) : (s.poll source id).Nears n id := by
  obtain ⟨t, ht, hleft⟩ := hnears
  cases hresult : t.result? with
  | some r =>
    have hended : t.result? ≠ none := by simp [hresult]
    have hsame : s.poll source id = s := poll_eq_self source fun u hu => by
      cases ht.symm.trans hu
      exact hended
    rw [hsame]
    exact ⟨t, ht, Nat.le_trans (Nat.le_of_eq (LoadTask.left_of_ended hended)) (Nat.zero_le n)⟩
  | none =>
    have hid := (Array.getElem?_eq_some_iff.1 ht).1
    cases hstage : t.stage with
    | finished r => simp [LoadTask.result?, hstage] at hresult
    | requested =>
      have htask : (s.poll source id).tasks[id]? = some { t with stage := .fetching } := by
        have hget : s.tasks[id]? = some t := ht
        rw [CardStore.poll, hget]
        simp only [hstage]
        exact Array.getElem?_setIfInBounds_self_of_lt hid
      refine ⟨_, htask, ?_⟩
      rw [hstage] at hleft
      exact Nat.le_of_succ_le_succ hleft
    | fetching =>
      obtain ⟨bytes, hanswer⟩ := hfound.answers (h.asked ht hresult)
        (h.toCoherent.file?_eq ht hresult)
      have hended := result?_poll_ne_none ht hstage hanswer
      obtain ⟨r, hr⟩ := Option.ne_none_iff_exists'.1 hended
      obtain ⟨t', ht', hresult'⟩ := Option.bind_eq_some_iff.1 hr
      refine ⟨t', ht', ?_⟩
      rw [LoadTask.left_of_ended (by simp [hresult'])]
      exact Nat.zero_le n

/-- A load that has not ended after it was polled has yet to be polled. -/
theorem Nears.pos (h : s.Nears n id) (hnone : s.result? id = none) : 1 ≤ n := by
  refine Nat.one_le_iff_ne_zero.2 fun hzero => ?_
  subst hzero
  exact h.ended hnone

/-- A round over what is waited for leaves less to wait for. -/
theorem Asks.nears_pollAll (h : s.Asks needed order) (hfound : files.FoundIn source needed order)
    {as as' : List Awaited} (hnears : ∀ a ∈ as, a.done = false → s.Nears (n + 1) a.load)
    (heq : s.pollAll source as = (s', .ok as')) :
    ∀ a ∈ as', a.done = false → 1 ≤ n ∧ s'.Nears n a.load := by
  induction as generalizing s as' with
  | nil =>
    cases heq
    exact nofun
  | cons a as ih =>
    obtain ⟨hfirst, hrest⟩ := List.forall_mem_cons.1 hnears
    obtain ⟨s₁, a', rest, hone, hall, rfl⟩ := pollAll_cons_eq_ok heq
    have hkept (hself : s₁.Nears n a'.load) : s'.Nears n a'.load := by
      have hkept := hself.pollAll source as
      rwa [hall] at hkept
    cases hone with
    | passed hdone =>
      refine List.forall_mem_cons.2 ⟨fun hnot => ?_, ih h hrest hall⟩
      exact nomatch hdone.symm.trans hnot
    | ended hdone hresult =>
      refine List.forall_mem_cons.2 ⟨nofun, ih (h.poll source _) (fun b hb hnot => ?_) hall⟩
      exact (hrest b hb hnot).poll source a.load
    | pending hdone hresult =>
      have hself := h.nears_poll hfound (hfirst hdone)
      refine List.forall_mem_cons.2 ⟨fun _ => ⟨hself.pos hresult, hkept hself⟩,
        ih (h.poll source _) (fun b hb hnot => ?_) hall⟩
      exact (hrest b hb hnot).poll source a.load

end CardStore

namespace Waiting

open CardStore

variable {s s' : CardStore} {source : Source} {n : Nat} {needed : List Property} {order : SortOrder}
  {files : FileSet} {w w' : Waiting}

structure Nears (w : Waiting) (s : CardStore) (n : Nat) : Prop where
  columns {a : Awaited} : a ∈ w.columns → a.done = false → s.Nears n a.load
  sorter : w.sorterSeen = none → s.Nears n w.sorter

/-- Where the sorter has been seen, only columns are left to poll. -/
theorem nears_settle {x : Sorter}
    (hcolumns : ∀ a ∈ w.columns, a.done = false → 1 ≤ n ∧ s.Nears n a.load)
    (heq : w.settle s x = (s', .pending w')) : 1 ≤ n ∧ w'.Nears s' n := by
  rcases w.settle_cases s x with ⟨-, hready⟩ | ⟨⟨a, ha, hdone⟩, hpending⟩
  · cases hready.symm.trans heq
  · cases hpending.symm.trans heq
    exact ⟨(hcolumns a ha hdone).1, fun ha hdone => (hcolumns _ ha hdone).2, nofun⟩

/-- What is still waited for after a round has to be polled once less. -/
theorem Nears.poll (h : w.Nears s (n + 1)) (hasks : s.Asks needed order)
    (hfound : files.FoundIn source needed order) (heq : w.poll source s = (s', .pending w')) :
    1 ≤ n ∧ w'.Nears s' n := by
  have hcolumns {s₁ : CardStore} {columns : List Awaited}
      (hall : s.pollAll source w.columns = (s₁, .ok columns)) :
      ∀ a ∈ columns, a.done = false → 1 ≤ n ∧ s₁.Nears n a.load :=
    hasks.nears_pollAll hfound (fun a ha => h.columns ha) hall
  have hkept (id : LoadId) {s₁ : CardStore} {columns : List Awaited}
      (hall : s.pollAll source w.columns = (s₁, .ok columns)) (a : Awaited) (ha : a ∈ columns)
      (hdone : a.done = false) : 1 ≤ n ∧ (s₁.poll source id).Nears n a.load :=
    (hcolumns hall a ha hdone).imp_right fun hnears => hnears.poll source id
  have hpolls := w.polls_poll source s
  generalize w.poll source s = r at heq hpolls
  cases hpolls with
  | failed | sorterFailed => cases heq
  | seen hall => exact nears_settle (hcolumns hall) heq
  | sorterEnded hall => exact nears_settle (hkept w.sorter hall) heq
  | @pending s₁ columns hall hseen hnone =>
    have hasks₁ : s₁.Asks needed order := by
      have hkept := hasks.pollAll source w.columns
      rwa [hall] at hkept
    have hsorter : s₁.Nears (n + 1) w.sorter := by
      have hkept := (h.sorter hseen).pollAll source w.columns
      rwa [hall] at hkept
    have hself := hasks₁.nears_poll hfound hsorter
    cases heq
    exact ⟨hself.pos hnone, fun ha hdone => (hkept w.sorter hall _ ha hdone).2, fun _ => hself⟩

/-- Whatever is waited for has to be polled twice at most. -/
theorem nears_begin (needed : List Property) (order : SortOrder)
    (hbegin : (Waiting.begin s needed order).1.Coherent) :
    (Waiting.begin s needed order).2.Nears (Waiting.begin s needed order).1 2 := by
  obtain ⟨-, hsorter, hcolumns⟩ := current_begin s needed order
  have hcurrent {target : LoadTarget} {id : LoadId}
      (hid : (target, id) ∈ (Waiting.begin s needed order).1.contents.current) :
      (Waiting.begin s needed order).1.Nears 2 id := by
    obtain ⟨t, ht, -⟩ := hbegin.linked.task_of_current hid
    refine ⟨t, ht, ?_⟩
    cases t.stage with
    | requested => exact Nat.le_refl 2
    | fetching => exact Nat.le_succ 1
    | finished r => exact Nat.zero_le 2
  refine ⟨fun {a} ha _ => ?_, fun _ => hcurrent hsorter⟩
  obtain ⟨p, hp⟩ := hcolumns a ha
  exact hcurrent hp

end Waiting

end CardSearch
