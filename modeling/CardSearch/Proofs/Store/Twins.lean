import CardSearch.Proofs.Store.Coherence
import Mathlib.Data.List.Forall2

/-!
# Stores that load the same

Two stores of one snapshot hold the same columns, and the current loads of each file are equally far
in both; how their loads are numbered, and what happened to them before, does not matter. Whoever asks
both for the same and polls them over the same answers finds the same, step by step.
-/

namespace CardSearch

open CardStore Contents

theorem LoadTask.stage_of_result {t : LoadTask} {r : Except LoadError Loaded}
    (h : t.result? = some r) : t.stage = .finished r := by
  unfold result? at h
  split at h
  · next hstage => exact hstage.trans (congrArg LoadStage.finished (Option.some.inj h))
  · cases h

namespace Contents

variable {c c' : Contents} {id : LoadId} {t : LoadTask} {stage : LoadStage} {target : LoadTarget}

def At (c : Contents) (target : LoadTarget) (stage : LoadStage) : Prop :=
  ∃ id t, (target, id) ∈ c.current ∧ c.tasks[id]? = some t ∧ t.stage = stage

private theorem Linked.exists_at_iff (h : c.Linked) :
    (∃ stage, c.At target stage) ↔ ∃ id, (target, id) ∈ c.current := by
  constructor
  · rintro ⟨stage, id, t, hid, -⟩
    exact ⟨id, hid⟩
  · rintro ⟨id, hid⟩
    obtain ⟨t, ht, -⟩ := h.task_of_current hid
    exact ⟨t.stage, id, t, hid, ht, rfl⟩

theorem Linked.at_iff_of_current (h : c.Linked) (hid : (target, id) ∈ c.current)
    (ht : c.tasks[id]? = some t) : c.At target stage ↔ t.stage = stage := by
  constructor
  · rintro ⟨j, u, hj, hu, hstage⟩
    obtain rfl := h.unique hj hid
    cases ht.symm.trans hu
    exact hstage
  · exact fun hstage => ⟨id, t, hid, ht, hstage⟩

/-- When a load comes to another stage without failing, those of other targets stay where they
are. -/
theorem at_restages (hc : c.Linked) (hr : Restages c id t stage c')
    (hok : ∀ e, stage ≠ .finished (.error e)) (other : LoadTarget) (stage' : LoadStage) :
    c'.At other stage' ↔ if other = t.target then stage = stage' else c.At other stage' := by
  have hself := hc.current_of_pending hr.task hr.pending
  have hself' := (hr.current_iff _).2 ⟨hself, fun e he => absurd he (hok e)⟩
  split
  · next heq =>
    subst heq
    refine (hr.to_linked hc).at_iff_of_current hself' (t := { t with stage }) ?_
    rw [hr.getElem?_tasks, if_pos rfl]
  · next hne =>
    have hother {j : LoadId} (hj : (other, j) ∈ c.current) : j ≠ id := by
      rintro rfl
      obtain ⟨u, hu, htarget, -⟩ := hc.task_of_current hj
      cases hr.task.symm.trans hu
      exact hne htarget.symm
    constructor
    · rintro ⟨j, u, hj, hu, hstage⟩
      have hj := ((hr.current_iff _).1 hj).1
      rw [hr.getElem?_tasks, if_neg (hother hj)] at hu
      exact ⟨j, u, hj, hu, hstage⟩
    · rintro ⟨j, u, hj, hu, hstage⟩
      refine ⟨j, u, (hr.current_iff _).2 ⟨hj, fun e he => absurd he (hok e)⟩, ?_, hstage⟩
      rw [hr.getElem?_tasks, if_neg (hother hj), hu]

end Contents

namespace CardStore

variable {s : CardStore} {target other : LoadTarget} {stage : LoadStage} {file : String}

/-- Of the loads of files, asking for one starts that one, if it is not current. -/
theorem at_request (hc : s.contents.Linked) (target : LoadTarget) (hother : other.file? = some file) :
    (s.request target).1.contents.At other stage ↔ s.contents.At other stage ∨
      other = target ∧ (∀ id, (target, id) ∉ s.contents.current) ∧ stage = .requested := by
  cases hlookup : s.current.lookup target with
  | some id =>
    have hrequest : s.request target = (s, id) := by rw [request, hlookup]
    rw [hrequest]
    refine (or_iff_left ?_).symm
    rintro ⟨-, hnone, -⟩
    exact hnone id (mem_of_lookup hlookup)
  | none =>
    have hfree (id : LoadId) : (target, id) ∉ s.contents.current := not_mem_of_lookup hlookup
    have hrequest : s.request target = s.start target := by rw [request, hlookup]
    rw [hrequest]
    constructor
    · rintro ⟨j, u, hj, hu, rfl⟩
      have hu : (s.contents.tasks.push _)[j]? = some u := hu
      rw [Array.getElem?_push] at hu
      rcases hc.mem_started hj with heq | ⟨hj, hne⟩
      · cases heq
        rw [if_pos rfl, hother] at hu
        cases hu
        exact .inr ⟨rfl, hfree, rfl⟩
      · rw [if_neg hne] at hu
        exact .inl ⟨j, u, hj, hu, rfl⟩
    · rintro (⟨j, u, hj, hu, rfl⟩ | ⟨rfl, -, rfl⟩)
      · have hne := Nat.ne_of_lt (Array.getElem?_eq_some_iff.1 hu).1
        exact ⟨j, u, List.mem_cons_of_mem _ hj,
          (Array.getElem?_push.trans (if_neg hne)).trans hu, rfl⟩
      · refine ⟨s.tasks.size, _, List.mem_cons_self, Array.getElem?_push.trans (if_pos rfl), ?_⟩
        rw [hother]

structure Twins (time : UInt64) (s₁ s₂ : CardStore) : Prop where
  left : s₁.Coherent
  right : s₂.Coherent
  time_left : s₁.contents.FixesTime time
  time_right : s₂.contents.FixesTime time
  catalog_eq : s₁.contents.catalog = s₂.contents.catalog
  at_iff {target : LoadTarget} {file : String} {stage : LoadStage} : target.file? = some file →
    (s₁.contents.At target stage ↔ s₂.contents.At target stage)

def Paired (s₁ s₂ : CardStore) (i j : LoadId) : Prop :=
  ∃ target, (target, i) ∈ s₁.contents.current ∧ (target, j) ∈ s₂.contents.current

namespace Twins

variable {time : UInt64} {s₁ s₂ : CardStore} {i j : LoadId}

theorem current_iff (h : Twins time s₁ s₂) (hfile : target.file? = some file) :
    (∃ i, (target, i) ∈ s₁.contents.current) ↔ ∃ j, (target, j) ∈ s₂.contents.current := by
  rw [← h.left.linked.exists_at_iff, ← h.right.linked.exists_at_iff]
  exact exists_congr fun stage => h.at_iff hfile

/-- Asked for the same, both stay alike. -/
theorem request (h : Twins time s₁ s₂) (hstored : ∀ p, target = .column p → p.isStored = true) :
    Twins time (s₁.request target).1 (s₂.request target).1 := by
  obtain ⟨hcatalog₁, htime₁⟩ := catalog_of_requests (requests_request s₁ target)
  obtain ⟨hcatalog₂, htime₂⟩ := catalog_of_requests (requests_request s₂ target)
  refine ⟨h.left.request hstored, h.right.request hstored, ?_, ?_, ?_, fun {other file stage} hfile => ?_⟩
  · unfold FixesTime
    rw [htime₁]
    exact h.time_left
  · unfold FixesTime
    rw [htime₂]
    exact h.time_right
  · rw [hcatalog₁, hcatalog₂, h.catalog_eq]
  · rw [at_request h.left.linked target hfile, at_request h.right.linked target hfile, h.at_iff hfile]
    refine or_congr_right (and_congr_right fun heq => and_congr_left fun _ => ?_)
    subst heq
    simpa only [not_exists] using not_congr (h.current_iff hfile)

theorem paired_request (s₁ s₂ : CardStore) (target : LoadTarget) :
    Paired (s₁.request target).1 (s₂.request target).1 (s₁.request target).2
      (s₂.request target).2 :=
  ⟨target, (mem_of_requests (requests_request s₁ target)).1,
    (mem_of_requests (requests_request s₂ target)).1⟩

theorem targetOf_eq (h : Twins time s₁ s₂) (p : Property) : s₁.targetOf p = s₂.targetOf p := by
  have hlookup {s : CardStore} (q : Property) : (s.current.lookup (.column q)).isSome = true ↔
      ∃ id, (LoadTarget.column q, id) ∈ s.contents.current := by
    constructor
    · intro hsome
      obtain ⟨id, hid⟩ := Option.isSome_iff_exists.1 hsome
      exact ⟨id, mem_of_lookup hid⟩
    · rintro ⟨id, hid⟩
      refine Option.isSome_iff_ne_none.2 fun hnone => ?_
      exact not_mem_of_lookup hnone hid
  have hcurrent (q : Property) : (∃ i, (LoadTarget.column q, i) ∈ s₁.contents.current) ↔
      ∃ j, (LoadTarget.column q, j) ∈ s₂.contents.current := h.current_iff rfl
  have hsame : (fun q : Property => (s₁.current.lookup (.column q)).isSome) =
      fun q => (s₂.current.lookup (.column q)).isSome :=
    funext fun q => Bool.eq_iff_iff.2 ((hlookup q).trans ((hcurrent q).trans (hlookup q).symm))
  rw [targetOf, targetOf, hsame]

private theorem requestProperty (h : Twins time s₁ s₂) (p : Property) :
    Twins time (s₁.requestProperty p).1 (s₂.requestProperty p).1 ∧
      Paired (s₁.requestProperty p).1 (s₂.requestProperty p).1 (s₁.requestProperty p).2
        (s₂.requestProperty p).2 := by
  obtain ⟨q, -, htarget, hstored⟩ := targetOf_spec h.left.linked p
  rw [CardStore.requestProperty, CardStore.requestProperty, ← h.targetOf_eq p]
  refine ⟨h.request fun q' hq' => ?_, paired_request s₁ s₂ _⟩
  cases htarget.symm.trans hq'
  exact hstored

/-- Asked for the same properties, both stay alike, and give loads of the same targets. -/
theorem requestProperties (h : Twins time s₁ s₂) (ps : List Property) :
    Twins time (s₁.requestProperties ps).1 (s₂.requestProperties ps).1 ∧
      List.Forall₂ (Paired (s₁.requestProperties ps).1 (s₂.requestProperties ps).1)
        (s₁.requestProperties ps).2 (s₂.requestProperties ps).2 := by
  induction ps generalizing s₁ s₂ with
  | nil => exact ⟨h, .nil⟩
  | cons p ps ih =>
    obtain ⟨hfirst, target, hi, hj⟩ := h.requestProperty p
    obtain ⟨hrest, hpaired⟩ := ih hfirst
    obtain ⟨hkept₁, -⟩ := current_requestProperties (s₁.requestProperty p).1 ps
    obtain ⟨hkept₂, -⟩ := current_requestProperties (s₂.requestProperty p).1 ps
    simp only [CardStore.requestProperties]
    exact ⟨hrest, .cons ⟨target, hkept₁ _ hi, hkept₂ _ hj⟩ hpaired⟩

/-- Loads of the same target are equally far. -/
theorem exists_tasks (h : Twins time s₁ s₂) (hpaired : Paired s₁ s₂ i j) :
    ∃ t u, s₁.contents.tasks[i]? = some t ∧ s₂.contents.tasks[j]? = some u ∧
      u.target = t.target ∧ u.file = t.file ∧ u.stage = t.stage := by
  obtain ⟨target, hi, hj⟩ := hpaired
  obtain ⟨t, ht, htarget, -⟩ := h.left.linked.task_of_current hi
  obtain ⟨u, hu, hutarget, -⟩ := h.right.linked.task_of_current hj
  have hsame : u.target = t.target := hutarget.trans htarget.symm
  refine ⟨t, u, ht, hu, hsame, ?_, ?_⟩
  · rw [h.left.named.file_eq ht, h.right.named.file_eq hu, hsame]
  · cases hfile : target.file? with
    | none =>
      rw [LoadTask.stage_of_result (h.left.byName i t ht (htarget ▸ hfile)),
        LoadTask.stage_of_result (h.right.byName j u hu (hutarget ▸ hfile))]
    | some file =>
      exact (h.right.linked.at_iff_of_current hj hu).1
        ((h.at_iff hfile).1 ((h.left.linked.at_iff_of_current hi ht).2 rfl))

theorem result?_ne_error (h : Twins time s₁ s₂) (hpaired : Paired s₁ s₂ i j) (e : LoadError) :
    s₁.result? i ≠ some (.error e) := by
  obtain ⟨target, hi, -⟩ := hpaired
  exact h.left.result?_ne_error hi e

theorem result?_eq (h : Twins time s₁ s₂) (hpaired : Paired s₁ s₂ i j) :
    s₁.result? i = s₂.result? j := by
  obtain ⟨t, u, ht, hu, -, -, hstage⟩ := h.exists_tasks hpaired
  rw [result?_of_task ht, result?_of_task hu, LoadTask.result?, LoadTask.result?, hstage]

end Twins

def Bound (needed : List Property) (order : SortOrder) (s : CardStore) : Prop :=
  ∀ y ∈ s.contents.current, y.1.AskedFor needed order ∨ y.1.file? = none

variable {needed : List Property} {order : SortOrder} {source part : Source} {id : LoadId}
  {t : LoadTask}

private theorem Bound.poll (h : s.Bound needed order) (source : Source) (id : LoadId) :
    (s.poll source id).Bound needed order := by
  have hpoll := (polls_poll s source id).cases
  unfold Bound at *
  rcases hpoll with hsame | ⟨t, stage, hr⟩ | ⟨t, e, -, -, hclear⟩
  · rwa [hsame]
  · exact fun y hy => h y ((hr.current_iff y).1 hy).1
  · rw [hclear]
    exact fun y hy => absurd hy (not_mem_clearedBy y)

private theorem Bound.request (h : s.Bound needed order) (htarget : target.AskedFor needed order) :
    (s.request target).1.Bound needed order := by
  unfold CardStore.request
  split
  · exact h
  · exact List.forall_mem_cons.2 ⟨.inl htarget, h⟩

theorem Bound.begin (h : s.Bound needed order)
    (hsorted : needed.Pairwise (fun p q => p.index < q.index)) :
    (Waiting.begin s needed order).1.Bound needed order :=
  begin_of_askedFor (fun h htarget => h.request htarget) h hsorted

/-- A load that goes on in such a store is of what is asked for. -/
theorem Bound.askedFor (h : s.Bound needed order) (hc : s.Coherent)
    (ht : s.contents.tasks[id]? = some t) (hpending : t.result? = none) :
    t.target.AskedFor needed order := by
  refine (h _ (hc.linked.current_of_pending ht hpending)).resolve_right fun hnone => ?_
  rw [hc.byName id t ht hnone] at hpending
  cases hpending

/-- A fetch that has got no answer is left as it is. -/
theorem poll_of_unanswered (ht : s.contents.tasks[id]? = some t) (hstage : t.stage = .fetching)
    (hnone : part t.file = none) : s.poll part id = s := by
  have hget : s.tasks[id]? = some t := ht
  rw [poll, hget]
  simp only [hstage, hnone]

end CardStore

namespace FileSet

open CardStore

variable {files : FileSet} {source part : Source} {needed : List Property} {order : SortOrder}
  {s₁ s₂ : CardStore} {i j : LoadId}

section Advancing

variable {c₁ c₂ c₁' c₂' : Contents} {t u : LoadTask} {stage₁ stage₂ : LoadStage}

/-- How far a load comes is a matter of its target and of how far it was. -/
theorem Advances.stage_congr (h₁ : files.Advances needed c₁ i t stage₁ c₁')
    (h₂ : files.Advances needed c₂ j u stage₂ c₂') (htarget : u.target = t.target)
    (hstage : u.stage = t.stage) : stage₁ = stage₂ := by
  have hstage₁ := h₁.stage_eq
  have hstage₂ := h₂.stage_eq
  rw [hstage, htarget] at hstage₂
  rcases hstage₁ with ⟨hbefore, rfl⟩ | ⟨hbefore, rfl⟩ <;>
    rcases hstage₂ with ⟨hbefore', rfl⟩ | ⟨hbefore', rfl⟩
  · rfl
  · cases hbefore.symm.trans hbefore'
  · cases hbefore.symm.trans hbefore'
  · rfl

/-- What a load brings into the catalog is a matter of its target and of the stage it came to. -/
theorem Advances.catalog_congr (h₁ : files.Advances needed c₁ i t stage₁ c₁')
    (h₂ : files.Advances needed c₂ j u stage₁ c₂') (htarget : u.target = t.target)
    (hcatalog : c₁.catalog = c₂.catalog) : c₁'.catalog = c₂'.catalog := by
  have hcatalog₂ := h₂.catalog
  rw [htarget] at hcatalog₂
  rcases h₁.catalog with ⟨hsame₁, hnone₁⟩ | ⟨p, -, hp, hstage₁, hput₁⟩ <;>
    rcases hcatalog₂ with ⟨hsame₂, hnone₂⟩ | ⟨q, -, hq, hstage₂, hput₂⟩
  · rw [hsame₁, hsame₂, hcatalog]
  · exact absurd hstage₂ (hnone₁ q _ hq)
  · exact absurd hstage₁ (hnone₂ p _ hp)
  · cases hp.symm.trans hq
    rw [hput₁, hput₂, hcatalog]

end Advancing

/-- Polled over all files, loads of the same target come to the same stage. -/
theorem FoundIn.twins_poll_full (hfound : files.FoundIn source needed order)
    (h : Twins files.time s₁ s₂) (hbound : s₁.Bound needed order) (hpaired : Paired s₁ s₂ i j) :
    Twins files.time (s₁.poll source i) (s₂.poll source j) := by
  obtain ⟨t, u, ht, hu, htarget, hfile, hstage⟩ := h.exists_tasks hpaired
  cases hpending : t.result? with
  | some r =>
    have hleft : s₁.result? i = some r := Option.bind_eq_some_iff.2 ⟨t, ht, hpending⟩
    rw [poll_of_result hleft, poll_of_result ((h.result?_eq hpaired).symm.trans hleft)]
    exact h
  | none =>
    have hpending' : u.result? = none := by
      rw [LoadTask.result?, hstage]
      exact hpending
    have hasked := hbound.askedFor h.left ht hpending
    obtain ⟨stage, h₁⟩ := hfound.advances h.time_left ht hpending hasked
      (h.left.file?_eq ht hpending)
    obtain ⟨stage', h₂⟩ := hfound.advances h.time_right hu hpending' (htarget ▸ hasked)
      (h.right.file?_eq hu hpending')
    obtain rfl := h₁.stage_congr h₂ htarget hstage
    refine ⟨h.left.poll source i, h.right.poll source j, h₁.fixesTime h.time_left,
      h₂.fixesTime h.time_right, h₁.catalog_congr h₂ htarget h.catalog_eq,
      fun {other file stage'} hother => ?_⟩
    have hat₁ := Contents.at_restages h.left.linked h₁.toRestages
      (fun e he => by cases h₁.gives he) other stage'
    have hat₂ := Contents.at_restages h.right.linked h₂.toRestages
      (fun e he => by cases h₂.gives he) other stage'
    rw [hat₁, hat₂, htarget, h.at_iff hother]

theorem FoundIn.twins_poll (hfound : files.FoundIn source needed order) (hpart : part.PartOf source)
    (h : Twins files.time s₁ s₂) (hbound : s₁.Bound needed order) (hpaired : Paired s₁ s₂ i j) :
    Twins files.time (s₁.poll part i) (s₂.poll part j) := by
  obtain ⟨t, u, ht, hu, -, hfile, hstage⟩ := h.exists_tasks hpaired
  by_cases hsilent : t.stage = .fetching ∧ part t.file = none
  · rw [poll_of_unanswered ht hsilent.1 hsilent.2,
      poll_of_unanswered hu (hstage.trans hsilent.1) (hfile ▸ hsilent.2)]
    exact h
  · have hleft : s₁.poll part i = s₁.poll source i := by
      refine (poll_of_partOf hpart s₁ i).resolve_right ?_
      rintro ⟨-, t', ht', hsilent'⟩
      cases ht.symm.trans ht'
      exact hsilent hsilent'
    have hright : s₂.poll part j = s₂.poll source j := by
      refine (poll_of_partOf hpart s₂ j).resolve_right ?_
      rintro ⟨-, u', hu', hsilent'⟩
      cases hu.symm.trans hu'
      rw [hstage, hfile] at hsilent'
      exact hsilent hsilent'
    rw [hleft, hright]
    exact hfound.twins_poll_full h hbound hpaired

/-- Polled over a part of all files, a store of their snapshot keeps its current loads. -/
theorem FoundIn.current_poll {s : CardStore} (hfound : files.FoundIn source needed order)
    (hpart : part.PartOf source) (hc : s.Coherent) (htime : s.contents.FixesTime files.time)
    (hbound : s.Bound needed order) (id : LoadId) {y : LoadTarget × LoadId}
    (hy : y ∈ s.contents.current) : y ∈ (s.poll part id).contents.current := by
  rcases poll_of_partOf hpart s id with hfull | ⟨hsame, -⟩
  · rw [hfull]
    rcases s.exists_pending_or_poll_eq source id with ⟨t, ht, hpending⟩ | hsame
    · obtain ⟨stage, h⟩ := hfound.advances htime ht hpending (hbound.askedFor hc ht hpending)
        (hc.file?_eq ht hpending)
      exact (h.mem_current_iff y).2 hy
    · rwa [hsame]
  · rwa [hsame]

/-- Two stores of the snapshot of these files that load the same, and nothing else than what is asked
for. -/
structure Alike (files : FileSet) (needed : List Property) (order : SortOrder) (s₁ s₂ : CardStore) :
    Prop extends Twins files.time s₁ s₂ where
  bound_left : s₁.Bound needed order
  bound_right : s₂.Bound needed order

end FileSet

namespace Awaited

/-- Loads of the same target that are waited for, seen to have ended or not in both stores. -/
def Alike (s₁ s₂ : CardStore) (a b : Awaited) : Prop :=
  a.done = b.done ∧ CardStore.Paired s₁ s₂ a.load b.load

private theorem all_done_eq {s₁ s₂ : CardStore} {as bs : List Awaited}
    (h : List.Forall₂ (Awaited.Alike s₁ s₂) as bs) : as.all (·.done) = bs.all (·.done) := by
  induction h with
  | nil => rfl
  | cons hfirst _ ih => rw [List.all_cons, List.all_cons, hfirst.1, ih]

end Awaited

structure Waiting.Alike (s₁ s₂ : CardStore) (w₁ w₂ : Waiting) : Prop where
  columns : List.Forall₂ (Awaited.Alike s₁ s₂) w₁.columns w₂.columns
  sorter : CardStore.Paired s₁ s₂ w₁.sorter w₂.sorter
  seen : w₁.sorterSeen = w₂.sorterSeen

namespace FileSet

open CardStore

variable {files : FileSet} {source part : Source} {needed : List Property} {order : SortOrder}
  {s₁ s₂ : CardStore} {i j : LoadId} {w₁ w₂ : Waiting}

theorem Alike.begin (h : files.Alike needed order s₁ s₂)
    (hsorted : needed.Pairwise (fun p q => p.index < q.index)) :
    files.Alike needed order (Waiting.begin s₁ needed order).1 (Waiting.begin s₂ needed order).1 ∧
      Waiting.Alike (Waiting.begin s₁ needed order).1 (Waiting.begin s₂ needed order).1
        (Waiting.begin s₁ needed order).2 (Waiting.begin s₂ needed order).2 := by
  have hfirst : Twins files.time (s₁.requestSorter order).1 (s₂.requestSorter order).1 :=
    h.toTwins.request nofun
  obtain ⟨target, hi, hj⟩ := Twins.paired_request s₁ s₂ (.sorter order)
  obtain ⟨hrest, hpaired⟩ := hfirst.requestProperties needed
  obtain ⟨hkept₁, -⟩ := current_requestProperties (s₁.requestSorter order).1 needed
  obtain ⟨hkept₂, -⟩ := current_requestProperties (s₂.requestSorter order).1 needed
  refine ⟨⟨hrest, h.bound_left.begin hsorted, h.bound_right.begin hsorted⟩, ?_,
    ⟨target, hkept₁ _ hi, hkept₂ _ hj⟩, rfl⟩
  exact List.forall₂_map_left_iff.2 (List.forall₂_map_right_iff.2 (hpaired.imp fun _ _ h => ⟨rfl, h⟩))

section Polling

variable (hfound : files.FoundIn source needed order) (hpart : part.PartOf source)
include hfound hpart

/-- Loads of the same target are polled: both stores stay alike, and so do all pairs of loads. -/
theorem Alike.poll (h : files.Alike needed order s₁ s₂) (hpaired : Paired s₁ s₂ i j) :
    files.Alike needed order (s₁.poll part i) (s₂.poll part j) ∧
      ∀ {i' j' : LoadId}, Paired s₁ s₂ i' j' → Paired (s₁.poll part i) (s₂.poll part j) i' j' := by
  refine ⟨⟨hfound.twins_poll hpart h.toTwins h.bound_left hpaired, h.bound_left.poll part i,
    h.bound_right.poll part j⟩, fun ⟨target, hi', hj'⟩ => ⟨target, ?_, ?_⟩⟩
  · exact hfound.current_poll hpart h.left h.time_left h.bound_left i hi'
  · exact hfound.current_poll hpart h.right h.time_right h.bound_right j hj'

/-- A round over the same loads fails in neither store, and finds the same to have ended. -/
theorem Alike.pollAll {as bs : List Awaited} (h : files.Alike needed order s₁ s₂)
    (hpaired : List.Forall₂ (Awaited.Alike s₁ s₂) as bs) :
    ∃ s₁' s₂' as' bs', s₁.pollAll part as = (s₁', .ok as') ∧ s₂.pollAll part bs = (s₂', .ok bs') ∧
      files.Alike needed order s₁' s₂' ∧ List.Forall₂ (Awaited.Alike s₁' s₂') as' bs' ∧
      ∀ {i j : LoadId}, Paired s₁ s₂ i j → Paired s₁' s₂' i j := by
  induction as generalizing s₁ s₂ bs with
  | nil =>
    cases hpaired
    exact ⟨s₁, s₂, [], [], rfl, rfl, h, .nil, fun hp => hp⟩
  | cons a as ih =>
    cases hpaired with
    | @cons _ b _ bs hfirst hrest =>
      obtain ⟨hdone, hpair⟩ := hfirst
      rw [CardStore.pollAll, CardStore.pollAll, ← hdone]
      split
      · next ha =>
        obtain ⟨s₁', s₂', as', bs', has, hbs, h', hrest', hkept⟩ := ih h hrest
        rw [has, hbs]
        exact ⟨s₁', s₂', _, _, rfl, rfl, h', .cons ⟨hdone, hkept hpair⟩ hrest', hkept⟩
      · obtain ⟨hpoll, hkept⟩ := h.poll hfound hpart hpair
        have hresult := hpoll.result?_eq (hkept hpair)
        obtain ⟨s₁', s₂', as', bs', has, hbs, h', hrest', hkept'⟩ := ih hpoll
          (hrest.imp fun _ _ h => ⟨h.1, hkept h.2⟩)
        dsimp only
        rw [← hresult]
        split
        · next e he => exact absurd he (hpoll.result?_ne_error (hkept hpair) e)
        · rw [has, hbs]
          exact ⟨s₁', s₂', _, _, rfl, rfl, h', .cons ⟨rfl, hkept' (hkept hpair)⟩ hrest',
            fun hp => hkept' (hkept hp)⟩
        · rw [has, hbs]
          exact ⟨s₁', s₂', _, _, rfl, rfl, h', .cons ⟨hdone, hkept' (hkept hpair)⟩ hrest',
            fun hp => hkept' (hkept hp)⟩

/-- Over a part of the files, the same is found of what is waited for: either there is more to wait
for in both stores, or the same sorter is ready. -/
theorem Alike.poll_waiting (h : files.Alike needed order s₁ s₂) (hw : Waiting.Alike s₁ s₂ w₁ w₂) :
    ∃ s₁' s₂', files.Alike needed order s₁' s₂' ∧
      ((∃ x, w₁.poll part s₁ = (s₁', .ready x) ∧ w₂.poll part s₂ = (s₂', .ready x)) ∨
        ∃ w₁' w₂', w₁.poll part s₁ = (s₁', .pending w₁') ∧ w₂.poll part s₂ = (s₂', .pending w₂') ∧
          Waiting.Alike s₁' s₂' w₁' w₂') := by
  obtain ⟨s₁', s₂', as, bs, has, hbs, h', hcolumns, hkept⟩ := h.pollAll hfound hpart hw.columns
  have hdone := Awaited.all_done_eq hcolumns
  have hsorter := hkept hw.sorter
  unfold Waiting.poll
  rw [has, hbs, ← hw.seen]
  dsimp only
  rw [← hdone]
  split
  · next x hseen =>
    refine ⟨s₁', s₂', h', ?_⟩
    split
    · exact .inl ⟨x, rfl, rfl⟩
    · exact .inr ⟨_, _, rfl, rfl, hcolumns, hsorter, rfl⟩
  · next hseen =>
    obtain ⟨hpoll, hkept'⟩ := h'.poll hfound hpart hsorter
    have hsorter' := hkept' hsorter
    have hcolumns' := hcolumns.imp fun _ _ h => And.intro h.1 (hkept' h.2)
    refine ⟨_, _, hpoll, ?_⟩
    rw [← hpoll.result?_eq hsorter']
    split
    · next e he => exact absurd he (hpoll.result?_ne_error hsorter' e)
    · split
      · exact .inl ⟨_, rfl, rfl⟩
      · exact .inr ⟨_, _, rfl, rfl, hcolumns', hsorter', rfl⟩
    · exact .inr ⟨_, _, rfl, rfl, hcolumns', hsorter', rfl⟩

end Polling

structure Blank (files : FileSet) (s : CardStore) : Prop where
  coherent : s.Coherent
  time : s.contents.FixesTime files.time
  free : ∀ y ∈ s.contents.current, y.1.file? = none

theorem blank_start (files : FileSet) (refetchInterval : Nat) :
    files.Blank { refetchInterval } :=
  ⟨coherent_start refetchInterval, .inl rfl, nofun⟩

theorem Blank.of_contents_eq {s s' : CardStore} (h : files.Blank s)
    (heq : s'.contents = s.contents) : files.Blank s' :=
  ⟨h.coherent.of_contents_eq heq, heq ▸ h.time, heq ▸ h.free⟩

theorem Blank.alike (h₁ : files.Blank s₁) (h₂ : files.Blank s₂) (needed : List Property)
    (order : SortOrder) : files.Alike needed order s₁ s₂ where
  left := h₁.coherent
  right := h₂.coherent
  time_left := h₁.time
  time_right := h₂.time
  catalog_eq := by
    rw [h₁.coherent.catalog_eq_empty h₁.free, h₂.coherent.catalog_eq_empty h₂.free]
  at_iff {target file stage} hfile := by
    have hnone {s : CardStore} (h : files.Blank s) : ¬s.contents.At target stage := by
      rintro ⟨id, t, hid, -⟩
      exact nomatch hfile.symm.trans (h.free _ hid)
    exact iff_of_false (hnone h₁) (hnone h₂)
  bound_left y hy := .inr (h₁.free y hy)
  bound_right y hy := .inr (h₂.free y hy)

end FileSet

end CardSearch
