import CardSearch.Proofs.Store.Polling

/-!
# Loads over time

Loads stay what they are, and keep what they have given. Of each target one load at most is current;
it has not failed, and every load that goes on is current. The steps of a store keep it that way,
whether a load is asked for, comes to another stage or is aborted.
-/

namespace CardSearch

section Lookup

variable {α β : Type} [BEq α] [LawfulBEq α] {l : List (α × β)} {a : α} {b : β}

theorem mem_of_lookup (h : l.lookup a = some b) : (a, b) ∈ l := by
  obtain ⟨l₁, l₂, hl, -⟩ := List.lookup_eq_some_iff.1 h
  simp [hl]

theorem not_mem_of_lookup (h : l.lookup a = none) : (a, b) ∉ l := fun hmem => by
  simpa using List.lookup_eq_none_iff.1 h _ hmem

end Lookup

namespace Contents

variable {c c' c'' c₁ : Contents} {source : Source} {id j : LoadId} {t : LoadTask}
  {stage : LoadStage} {e : LoadError} {target : LoadTarget}

structure Extends (c c' : Contents) : Prop where
  generation_le : c.generation ≤ c'.generation
  task {id : LoadId} {t : LoadTask} : c.tasks[id]? = some t → ∃ t', c'.tasks[id]? = some t' ∧
    t'.target = t.target ∧ t'.file = t.file ∧ (t.result? ≠ none → t'.result? = t.result?)

namespace Extends

theorem refl (c : Contents) : Extends c c :=
  ⟨Nat.le_refl _, fun ht => ⟨_, ht, rfl, rfl, fun _ => rfl⟩⟩

theorem trans (h : Extends c c') (h' : Extends c' c'') : Extends c c'' where
  generation_le := Nat.le_trans h.generation_le h'.generation_le
  task ht := by
    obtain ⟨t', ht', htarget, hfile, hresult⟩ := h.task ht
    obtain ⟨t'', ht'', htarget', hfile', hresult'⟩ := h'.task ht'
    refine ⟨t'', ht'', htarget'.trans htarget, hfile'.trans hfile, fun hended => ?_⟩
    have heq := hresult hended
    exact (hresult' (heq ▸ hended)).trans heq

theorem result_eq (h : Extends c c') {r : Except LoadError Loaded}
    (hr : c.result? id = some r) : c'.result? id = some r := by
  obtain ⟨t, ht, hresult⟩ := Option.bind_eq_some_iff.1 hr
  obtain ⟨t', ht', -, -, hsame⟩ := h.task ht
  exact Option.bind_eq_some_iff.2 ⟨t', ht', (hsame (by simp [hresult])).trans hresult⟩

end Extends

structure Linked (c : Contents) : Prop where
  task_of_current {target : LoadTarget} {id : LoadId} : (target, id) ∈ c.current →
    ∃ t, c.tasks[id]? = some t ∧ t.target = target ∧ ∀ e, t.result? ≠ some (.error e)
  unique {target : LoadTarget} {id j : LoadId} : (target, id) ∈ c.current →
    (target, j) ∈ c.current → id = j
  current_of_pending {id : LoadId} {t : LoadTask} : c.tasks[id]? = some t → t.result? = none →
    (t.target, id) ∈ c.current
  stored {p : Property} {id : LoadId} : (.column p, id) ∈ c.current → p.isStored = true

/-- A load that had not ended comes to another stage, and is no longer current if it failed. -/
structure Restages (c : Contents) (id : LoadId) (t : LoadTask) (stage : LoadStage) (c' : Contents) :
    Prop where
  task : c.tasks[id]? = some t
  pending : t.result? = none
  tasks_eq : c'.tasks = c.tasks.setIfInBounds id { t with stage }
  generation_eq : c'.generation = c.generation
  current_iff (x : LoadTarget × LoadId) : x ∈ c'.current ↔
    x ∈ c.current ∧ ∀ e, stage = .finished (.error e) → x.1 ≠ t.target

theorem restages_withStage (ht : c.tasks[id]? = some t) (hpending : t.result? = none)
    (htasks : c₁.tasks = c.tasks) (hcurrent : c₁.current = c.current)
    (hgen : c₁.generation = c.generation) (hstage : ∀ e, stage ≠ .finished (.error e)) :
    Restages c id t stage (c₁.withStage id t stage) where
  task := ht
  pending := hpending
  tasks_eq := congrArg (·.setIfInBounds id { t with stage }) htasks
  generation_eq := hgen
  current_iff x := by
    change x ∈ c₁.current ↔ _
    rw [hcurrent]
    exact (and_iff_left fun e he => absurd he (hstage e)).symm

theorem restages_failed (ht : c.tasks[id]? = some t) (hpending : t.result? = none)
    (htasks : c₁.tasks = c.tasks) (hcurrent : c₁.current = c.current)
    (hgen : c₁.generation = c.generation) : Restages c id t (.finished (.error e))
      ((c₁.withStage id t (.finished (.error e))).without t.target) where
  task := ht
  pending := hpending
  tasks_eq := congrArg (·.setIfInBounds id { t with stage := .finished (.error e) }) htasks
  generation_eq := hgen
  current_iff x := by
    change x ∈ c₁.current.filter (·.1 != t.target) ↔ _
    rw [hcurrent, List.mem_filter, bne_iff_ne]
    exact and_congr_right fun _ => ⟨fun hne _ _ => hne, fun hne => hne e rfl⟩

namespace Restages

theorem getElem?_tasks (h : Restages c id t stage c') (j : LoadId) :
    c'.tasks[j]? = if j = id then some { t with stage } else c.tasks[j]? := by
  have hid := (Array.getElem?_eq_some_iff.1 h.task).1
  rw [h.tasks_eq, Array.getElem?_setIfInBounds]
  grind

theorem result_eq (h : Restages c id t stage c') (j : LoadId) :
    c'.result? j = if j = id then ({ t with stage } : LoadTask).result? else c.result? j := by
  unfold result?
  rw [h.getElem?_tasks]
  split <;> rfl

theorem stage_of_result (h : Restages c id t stage c') {r : Except LoadError Loaded}
    (hr : c'.result? id = some r) : stage = .finished r := by
  rw [h.result_eq, if_pos rfl] at hr
  cases stage with
  | finished r' => exact congrArg LoadStage.finished (Option.some.inj hr)
  | requested | fetching => cases hr

theorem to_extends (h : Restages c id t stage c') : Extends c c' where
  generation_le := Nat.le_of_eq h.generation_eq.symm
  task {j u} hu := by
    rw [h.getElem?_tasks]
    split
    · next heq =>
      subst heq
      cases h.task.symm.trans hu
      exact ⟨_, rfl, rfl, rfl, fun hended => absurd h.pending hended⟩
    · exact ⟨u, hu, rfl, rfl, fun _ => rfl⟩

theorem to_linked (h : Restages c id t stage c') (hc : c.Linked) : c'.Linked := by
  have hself := hc.current_of_pending h.task h.pending
  constructor
  · intro target j hj
    obtain ⟨hj, hstays⟩ := (h.current_iff _).1 hj
    obtain ⟨u, hu, htarget, hok⟩ := hc.task_of_current hj
    rw [h.getElem?_tasks]
    split
    · next heq =>
      -- the load itself would not be current any more had it failed
      subst heq
      cases h.task.symm.trans hu
      refine ⟨_, rfl, htarget, fun e he => ?_⟩
      have hstage := h.stage_of_result (r := .error e) (by rw [h.result_eq, if_pos rfl, he])
      exact hstays e hstage htarget.symm
    · exact ⟨u, hu, htarget, hok⟩
  · intro target j k hj hk
    exact hc.unique ((h.current_iff _).1 hj).1 ((h.current_iff _).1 hk).1
  · intro j u hu hpending
    rw [h.getElem?_tasks] at hu
    split at hu
    · next heq =>
      cases hu
      refine (h.current_iff _).2 ⟨heq ▸ hself, fun e he => ?_⟩
      subst he
      cases hpending
    · next hne =>
      have hj := hc.current_of_pending hu hpending
      exact (h.current_iff _).2 ⟨hj, fun e _ htarget => hne (hc.unique (htarget ▸ hj) hself)⟩
  · intro p j hj
    exact hc.stored ((h.current_iff _).1 hj).1

end Restages

theorem abort_cases (t : LoadTask) : t.abort = t ∧ t.result? ≠ none ∨
    t.result? = none ∧ t.abort = { t with stage := .finished (.error (.aborted t.file)) } := by
  obtain ⟨target, file, reload, stage⟩ := t
  cases stage with
  | finished r => exact .inl ⟨rfl, Option.some_ne_none r⟩
  | requested | fetching => exact .inr ⟨rfl, rfl⟩

abbrev clearedBy (c : Contents) (id : LoadId) (t : LoadTask) (e : LoadError) : Contents :=
  (c.cleared.withStage id t (.finished (.error e))).without t.target

/-- Of each load the target is left, and what it has given; those that went on have failed. -/
theorem getElem?_clearedBy (ht : c.tasks[id]? = some t) (hpending : t.result? = none) (e : LoadError)
    (j : LoadId) : ∃ r : LoadTask → LoadTask, (c.clearedBy id t e).tasks[j]? = c.tasks[j]?.map r ∧
      ∀ u, c.tasks[j]? = some u → (r u).target = u.target ∧ (r u).file = u.file ∧
        (u.result? ≠ none ∧ r u = u ∨ u.result? = none ∧ ∃ e, (r u).result? = some (.error e)) := by
  have habort : c.cleared.tasks[id]? = some t.abort := by simp [cleared, ht]
  have hget : (c.clearedBy id t e).tasks[j]? =
      if j = id then some { t with stage := .finished (.error e) } else c.cleared.tasks[j]? := by
    have hid := (Array.getElem?_eq_some_iff.1 habort).1
    rw [clearedBy, without, withStage, Array.getElem?_setIfInBounds]
    grind
  by_cases hj : j = id
  · subst hj
    refine ⟨fun _ => { t with stage := .finished (.error e) }, by rw [hget, if_pos rfl, ht]; rfl, ?_⟩
    intro u hu
    cases ht.symm.trans hu
    exact ⟨rfl, rfl, .inr ⟨hpending, e, rfl⟩⟩
  · refine ⟨LoadTask.abort, by rw [hget, if_neg hj]; simp [cleared], fun u hu => ?_⟩
    rcases abort_cases u with ⟨hsame, hended⟩ | ⟨hnone, habort⟩
    · exact ⟨by rw [hsame], by rw [hsame], .inl ⟨hended, hsame⟩⟩
    · rw [habort]
      exact ⟨rfl, rfl, .inr ⟨hnone, _, rfl⟩⟩

private theorem extends_clearedBy (ht : c.tasks[id]? = some t) (hpending : t.result? = none) :
    Extends c (c.clearedBy id t e) where
  generation_le := Nat.le_succ _
  task {j u} hu := by
    obtain ⟨r, hget, hr⟩ := getElem?_clearedBy ht hpending e j
    rw [hu] at hget
    obtain ⟨htarget, hfile, hresult⟩ := hr u hu
    refine ⟨r u, hget, htarget, hfile, fun hended => ?_⟩
    rcases hresult with ⟨-, hsame⟩ | ⟨hnone, -⟩
    · rw [hsame]
    · exact absurd hnone hended

theorem ended_of_clearedBy (ht : c.tasks[id]? = some t) (hpending : t.result? = none) {u : LoadTask}
    (hu : (c.clearedBy id t e).tasks[j]? = some u) :
    c.tasks[j]? = some u ∧ u.result? ≠ none ∨ ∃ e, u.result? = some (.error e) := by
  obtain ⟨r, hget, hr⟩ := getElem?_clearedBy ht hpending e j
  rw [hu] at hget
  obtain ⟨v, hv, rfl⟩ := Option.map_eq_some_iff.1 hget.symm
  rcases (hr v hv).2.2 with ⟨hended, hsame⟩ | ⟨-, herror⟩
  · rw [hsame]
    exact .inl ⟨hv, hended⟩
  · exact .inr herror

theorem not_mem_clearedBy (x : LoadTarget × LoadId) : x ∉ (c.clearedBy id t e).current :=
  List.not_mem_nil

theorem linked_clearedBy (ht : c.tasks[id]? = some t) (hpending : t.result? = none) :
    (c.clearedBy id t e).Linked := by
  constructor
  · intro target j hj
    exact absurd hj (not_mem_clearedBy _)
  · intro target j k hj
    exact absurd hj (not_mem_clearedBy _)
  · intro j u hu hnone
    rcases ended_of_clearedBy ht hpending hu with ⟨-, hended⟩ | ⟨e, herror⟩
    · exact absurd hnone hended
    · rw [herror] at hnone
      cases hnone
  · intro p j hj
    exact absurd hj (not_mem_clearedBy _)

/-- Polling a load changes nothing, brings it to another stage or clears the store. -/
theorem Polls.cases (h : c.Polls source id c') : c' = c ∨ (∃ t stage, Restages c id t stage c') ∨
    ∃ t e, c.tasks[id]? = some t ∧ t.result? = none ∧ c' = c.clearedBy id t e := by
  cases h with
  | same => exact .inl rfl
  | fetching ht hpending | column ht hpending | sorter ht hpending =>
    exact .inr (.inl ⟨_, _, restages_withStage ht hpending rfl rfl rfl nofun⟩)
  | failed ht hpending hc₁ =>
    rcases hc₁ with rfl | ⟨time, -, rfl⟩ <;>
      exact .inr (.inl ⟨_, _, restages_failed ht hpending rfl rfl rfl⟩)
  | cleared ht hpending => exact .inr (.inr ⟨_, _, ht, hpending, rfl⟩)

theorem extends_of_polls (h : c.Polls source id c') : Extends c c' := by
  rcases h.cases with rfl | ⟨t, stage, h⟩ | ⟨t, e, ht, hpending, rfl⟩
  · exact .refl c'
  · exact h.to_extends
  · exact extends_clearedBy ht hpending

/-- A store is cleared only by a load that fails. -/
theorem generation_of_polls (h : c.Polls source id c') :
    c'.generation = c.generation ∨ ∃ e, c'.result? id = some (.error e) := by
  rcases h.cases with rfl | ⟨t, stage, h⟩ | ⟨t, e, ht, hpending, rfl⟩
  · exact .inl rfl
  · exact .inl h.generation_eq
  · refine .inr ⟨e, ?_⟩
    have hid : id < c.cleared.tasks.size := by
      simpa [cleared] using (Array.getElem?_eq_some_iff.1 ht).1
    change ((c.cleared.tasks.setIfInBounds id _)[id]?).bind LoadTask.result? = _
    rw [Array.getElem?_setIfInBounds_self_of_lt hid]
    rfl

theorem generation_of_requests (h : c.Requests target c' id) : c'.generation = c.generation := by
  cases h <;> rfl

theorem extends_of_requests (h : c.Requests target c' id) : Extends c c' := by
  cases h with
  | current => exact .refl c
  | started =>
    refine ⟨Nat.le_refl _, fun {j u} hu => ⟨u, ?_, rfl, rfl, fun _ => rfl⟩⟩
    have hj := (Array.getElem?_eq_some_iff.1 hu).1
    rw [Array.getElem?_push, if_neg (Nat.ne_of_lt hj), hu]

theorem mem_of_requests (h : c.Requests target c' id) :
    (target, id) ∈ c'.current ∧ ∀ x ∈ c.current, x ∈ c'.current := by
  cases h with
  | current hlookup => exact ⟨mem_of_lookup hlookup, fun _ hx => hx⟩
  | started => exact ⟨List.mem_cons_self, fun _ hx => List.mem_cons_of_mem _ hx⟩

theorem catalog_of_requests (h : c.Requests target c' id) :
    c'.catalog = c.catalog ∧ c'.creationTime? = c.creationTime? := by
  cases h <;> exact ⟨rfl, rfl⟩

/-- Of what is current after a load was started, only that load was not before. -/
theorem Linked.mem_started (hc : c.Linked) {x : LoadTarget × LoadId}
    (hx : x ∈ (target, c.tasks.size) :: c.current) :
    x = (target, c.tasks.size) ∨ x ∈ c.current ∧ x.2 ≠ c.tasks.size := by
  refine (List.mem_cons.1 hx).imp_right fun hx => ⟨hx, ?_⟩
  obtain ⟨u, hu, -⟩ := hc.task_of_current hx
  exact Nat.ne_of_lt (Array.getElem?_eq_some_iff.1 hu).1

/-- A load that is current after a target was asked for was so before, with what it had given, or is
one of the target. Only the order that needs no file comes with what it gives. -/
theorem current_of_requests (hc : c.Linked) (h : c.Requests target c' id) {other : LoadTarget}
    {j : LoadId} (hj : (other, j) ∈ c'.current) :
    (other, j) ∈ c.current ∧ c'.result? j = c.result? j ∨ other = target ∧
      (c'.result? j = none ∨ target = .sorter .name ∧ c'.result? j = some (.ok (.sorter .name))) := by
  cases h with
  | current => exact .inl ⟨hj, rfl⟩
  | @started t hlookup htarget hresult =>
    have hget : (c.tasks.push t)[j]? = if j = c.tasks.size then some t else c.tasks[j]? :=
      Array.getElem?_push
    unfold result?
    rw [hget]
    rcases hc.mem_started hj with heq | ⟨hj, hne⟩
    · cases heq
      exact .inr ⟨rfl, by simpa using hresult⟩
    · exact .inl ⟨hj, by rw [if_neg hne]⟩

theorem Linked.requests (hc : c.Linked) (h : c.Requests target c' id)
    (hstored : ∀ p, target = .column p → p.isStored = true) : c'.Linked := by
  cases h with
  | current => exact hc
  | @started t hlookup htarget hresult =>
    have hget (j : LoadId) : (c.tasks.push t)[j]? =
        if j = c.tasks.size then some t else c.tasks[j]? := Array.getElem?_push
    have hfree {j : LoadId} : (target, j) ∉ c.current := not_mem_of_lookup hlookup
    constructor
    · intro target' j hj
      rcases hc.mem_started hj with heq | ⟨hj, hne⟩
      · cases heq
        refine ⟨t, (hget _).trans (if_pos rfl), htarget, fun e he => ?_⟩
        rcases hresult with hnone | ⟨-, hsome⟩
        · rw [hnone] at he
          cases he
        · rw [hsome] at he
          cases he
      · obtain ⟨u, hu, hu'⟩ := hc.task_of_current hj
        exact ⟨u, ((hget _).trans (if_neg hne)).trans hu, hu'⟩
    · intro target' j k hj hk
      rcases hc.mem_started hj with heq | ⟨hj, -⟩ <;> rcases hc.mem_started hk with heq' | ⟨hk, -⟩
      · cases heq
        cases heq'
        rfl
      · cases heq
        exact absurd hk hfree
      · cases heq'
        exact absurd hj hfree
      · exact hc.unique hj hk
    · intro j u hu hnone
      have hu := (hget j).symm.trans hu
      split at hu
      · next heq =>
        cases hu
        exact List.mem_cons.2 (.inl (Prod.ext htarget heq))
      · exact List.mem_cons_of_mem _ (hc.current_of_pending hu hnone)
    · intro p j hj
      rcases hc.mem_started hj with heq | ⟨hj, -⟩
      · exact hstored p (congrArg Prod.fst heq).symm
      · exact hc.stored hj

end Contents

end CardSearch
