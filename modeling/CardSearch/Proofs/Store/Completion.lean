import CardSearch.Proofs.Store.Serving

/-!
# Waiting that comes to an end

Whoever waits polls in rounds, over the answers that the fetches have got by then. Where every file
that is asked for is answered in one of the rounds after the first, no more of them are needed to
have the properties and the sorter. What is loaded then are the columns that were asked for, in
whatever order they came.
-/

namespace CardSearch

open CardStore Contents

/-- The members of a set of properties stand in the canonical order. -/
theorem PropertySet.pairwise_toList (s : PropertySet) :
    s.toList.Pairwise (fun p q => p.index < q.index) := by
  have hall : Property.all.Pairwise (fun p q => p.index < q.index) := by decide
  exact hall.filter _

def LoadTarget.AnsweredIn (rounds : List Source) (target : LoadTarget) : Prop :=
  ∀ file, target.file? = some file → ∃ part ∈ rounds, part file ≠ none

/-- A load of a file ends in these rounds: its fetch is answered in one of them, or in one after the
first if it has yet to be started. -/
def LoadStage.EndsIn (file : String) (rounds : List Source) : LoadStage → Prop
  | requested => ∃ part ∈ rounds.tail, part file ≠ none
  | fetching => ∃ part ∈ rounds, part file ≠ none
  | finished _ => True

theorem LoadStage.EndsIn.of_tail {file : String} {rounds : List Source} {stage : LoadStage}
    (h : stage.EndsIn file rounds.tail) : stage.EndsIn file rounds := by
  cases stage with
  | requested | fetching =>
    obtain ⟨part, hpart, hsome⟩ := h
    exact ⟨part, List.mem_of_mem_tail hpart, hsome⟩
  | finished r => trivial

theorem LoadTask.endsIn_of_ended {t : LoadTask} (h : t.result? ≠ none) (rounds : List Source) :
    t.stage.EndsIn t.file rounds := by
  obtain ⟨target, file, reload, stage⟩ := t
  cases stage with
  | requested | fetching => exact absurd rfl h
  | finished r => trivial

def Contents.HasEnded (c : Contents) (target : LoadTarget) : Prop :=
  ∃ id, (target, id) ∈ c.current ∧ c.result? id ≠ none

theorem Contents.HasEnded.of_extends {c c' : Contents} {target : LoadTarget} (h : c.HasEnded target)
    (hext : Extends c c') (hcurrent : ∀ y ∈ c.current, y ∈ c'.current) : c'.HasEnded target := by
  obtain ⟨id, hid, hended⟩ := h
  obtain ⟨r, hr⟩ := Option.ne_none_iff_exists'.1 hended
  exact ⟨id, hcurrent _ hid, by simp [hext.result_eq hr]⟩

def CardStore.EndsIn (s : CardStore) (target : LoadTarget) (id : LoadId) (rounds : List Source) :
    Prop :=
  (target, id) ∈ s.contents.current ∧
    ∃ t, s.contents.tasks[id]? = some t ∧ t.stage.EndsIn t.file rounds

theorem CardStore.EndsIn.ne_nil {s : CardStore} {target : LoadTarget} {id : LoadId}
    {rounds : List Source} (h : s.EndsIn target id rounds) (hnone : s.result? id = none) :
    rounds ≠ [] := by
  rintro rfl
  obtain ⟨-, t, ht, hends⟩ := h
  rw [result?_of_task ht] at hnone
  obtain ⟨target, file, reload, stage⟩ := t
  cases stage with
  | requested | fetching => simp [LoadStage.EndsIn] at hends
  | finished r => cases hnone

structure Waiting.EndsIn (w : Waiting) (s : CardStore) (order : SortOrder) (x : Sorter)
    (rounds : List Source) : Prop where
  columns {a : Awaited} : a ∈ w.columns → a.done = false → ∃ p, s.EndsIn (.column p) a.load rounds
  sorter : w.sorterSeen = none → s.EndsIn (.sorter order) w.sorter rounds
  seen {y : Sorter} : w.sorterSeen = some y → y = x

namespace CardStore

variable {needed ps : List Property} {order : SortOrder}

/-- What is loaded for a property that is needed is current or asked for, if those before it in the
canonical order have been asked for. -/
theorem current_or_askedFor_targetOf (s : CardStore) (order : SortOrder) {p : Property} (hp : p ∈ needed)
    (hbefore : p = .reprint → ∀ q ∈ needed, q.index < p.index →
      ∃ id, (.column q.source, id) ∈ s.contents.current) :
    (∃ id, (s.targetOf p, id) ∈ s.contents.current) ∨ (s.targetOf p).AskedFor needed order := by
  by_cases hreprint : p = .reprint
  · rw [targetOf, if_pos hreprint]
    cases hfind : Property.perVersion.find? (fun q => (s.current.lookup (.column q)).isSome) with
    | some q =>
      obtain ⟨id, hid⟩ : ∃ id, (LoadTarget.column q, id) ∈ s.current := by
        simpa using List.find?_some hfind
      exact .inl ⟨id, hid⟩
    | none =>
      -- of two properties that come before and could tell, neither is needed
      have hfree {q : Property} (hversion : q ∈ Property.perVersion) (hlt : q.index < p.index) :
          q ∉ needed := by
        intro hq
        obtain ⟨id, hid⟩ := hbefore hreprint q hq hlt
        rw [Property.source_eq_of_perVersion hversion] at hid
        have hnone : s.current.lookup (.column q) = none := by
          have hnot := List.find?_eq_none.1 hfind q hversion
          rwa [Bool.not_eq_true, Option.isSome_eq_false_iff, Option.isNone_iff_eq_none] at hnot
        exact not_mem_of_lookup hnone hid
      subst hreprint
      exact .inr (.inr ⟨hp, hfree (by decide) (by decide), hfree (by decide) (by decide), rfl⟩)
  · rw [targetOf, if_neg hreprint]
    exact .inr (Property.loadedFor_source hp hreprint)

/-- What is asked for a property is a column, and that of its source unless reprints are told. -/
theorem targetOf_cases (s : CardStore) (p : Property) :
    (∃ q, s.targetOf p = .column q) ∧ (p ≠ .reprint → s.targetOf p = .column p.source) := by
  unfold targetOf
  split
  · next hreprint => exact ⟨⟨_, rfl⟩, fun hne => absurd hreprint hne⟩
  · exact ⟨⟨_, rfl⟩, fun _ => rfl⟩

/-- Asking for a target that is current changes nothing. -/
theorem request_eq_self {s : CardStore} {target : LoadTarget} {id : LoadId}
    (h : (target, id) ∈ s.contents.current) : (s.request target).1 = s := by
  unfold request
  split
  · rfl
  · next hnone => exact absurd h (not_mem_of_lookup hnone)

/-- The loads that are given for properties are current ones of columns, and what was current before
stays so. -/
theorem current_requestProperties (s : CardStore) (ps : List Property) :
    (∀ y ∈ s.contents.current, y ∈ (s.requestProperties ps).1.contents.current) ∧
      ∀ id ∈ (s.requestProperties ps).2,
        ∃ p, (.column p, id) ∈ (s.requestProperties ps).1.contents.current := by
  induction ps generalizing s with
  | nil => exact ⟨fun _ hy => hy, nofun⟩
  | cons p ps ih =>
    obtain ⟨hmem, hkept⟩ := mem_of_requests (requests_request s (s.targetOf p))
    obtain ⟨hkept', hids⟩ := ih (s.requestProperty p).1
    simp only [requestProperties]
    refine ⟨fun y hy => hkept' y (hkept y hy), fun id hid => ?_⟩
    rcases List.mem_cons.1 hid with rfl | hid
    · obtain ⟨q, hq⟩ := (s.targetOf_cases p).1
      exact ⟨q, hkept' _ (hq ▸ hmem)⟩
    · exact hids id hid

/-- Whoever begins to wait does so for current loads, and what was current before stays so. -/
theorem current_begin (s : CardStore) (needed : List Property) (order : SortOrder) :
    (∀ y ∈ s.contents.current, y ∈ (Waiting.begin s needed order).1.contents.current) ∧
      (.sorter order, (Waiting.begin s needed order).2.sorter) ∈
        (Waiting.begin s needed order).1.contents.current ∧
      ∀ a ∈ (Waiting.begin s needed order).2.columns,
        ∃ p, (.column p, a.load) ∈ (Waiting.begin s needed order).1.contents.current := by
  obtain ⟨hmem, hkept⟩ := mem_of_requests (requests_request s (.sorter order))
  obtain ⟨hkept', hids⟩ := current_requestProperties (s.request (.sorter order)).1 needed
  refine ⟨fun y hy => hkept' y (hkept y hy), hkept' _ hmem, fun a ha => ?_⟩
  obtain ⟨id, hid, rfl⟩ := List.mem_map.1 ha
  exact hids id hid

section Asking

variable {P : CardStore → Prop} (hrequest : ∀ {s : CardStore} {target : LoadTarget}, P s →
  target.AskedFor needed order → P (s.request target).1)
include hrequest

/-- Asking for properties in the canonical order asks for nothing that is not loaded for them: it
keeps what is kept by asking for these targets. -/
theorem requestProperties_of_askedFor {s : CardStore} (h : P s) (hps : ∀ p ∈ ps, p ∈ needed)
    (hsorted : ps.Pairwise (fun p q => p.index < q.index))
    (hdone : ∀ q ∈ needed, q ∈ ps ∨ q = .reprint ∨
      ∃ id, (.column q.source, id) ∈ s.contents.current) : P (s.requestProperties ps).1 := by
  induction ps generalizing s with
  | nil => exact h
  | cons p ps ih =>
    obtain ⟨hp, hps⟩ := List.forall_mem_cons.1 hps
    obtain ⟨hlt, hsorted⟩ := List.pairwise_cons.1 hsorted
    have hfirst : P (s.request (s.targetOf p)).1 := by
      have hcases := s.current_or_askedFor_targetOf order hp fun hreprint q hq hqp => by
        rcases hdone q hq with hmem | rfl | hid
        · rcases List.mem_cons.1 hmem with rfl | hmem
          · exact absurd hqp (Nat.lt_irrefl _)
          · exact absurd hqp (Nat.lt_asymm (hlt q hmem))
        · exact absurd (hreprint ▸ hqp) (Nat.lt_irrefl _)
        · exact hid
      rcases hcases with ⟨id, hid⟩ | hasked
      · rwa [request_eq_self hid]
      · exact hrequest h hasked
    obtain ⟨hmem, hkept⟩ := mem_of_requests (requests_request s (s.targetOf p))
    refine ih hfirst hps hsorted fun q hq => ?_
    rcases hdone q hq with hq' | hq' | ⟨id, hid⟩
    · rcases List.mem_cons.1 hq' with rfl | hq'
      · by_cases hreprint : q = .reprint
        · exact .inr (.inl hreprint)
        · rw [(s.targetOf_cases q).2 hreprint] at hmem ⊢
          exact .inr (.inr ⟨_, hmem⟩)
      · exact .inl hq'
    · exact .inr (.inl hq')
    · exact .inr (.inr ⟨id, hkept _ hid⟩)

/-- Whoever begins to wait asks for nothing else. -/
theorem begin_of_askedFor {s : CardStore} (h : P s)
    (hsorted : needed.Pairwise (fun p q => p.index < q.index)) :
    P (Waiting.begin s needed order).1 :=
  requestProperties_of_askedFor hrequest (hrequest h rfl) (fun _ hp => hp) hsorted
    fun _ hq => .inl hq

end Asking

end CardStore

/-- Where nothing else has been loaded, and the properties that are needed are told of, what has been
loaded is what is loaded for them. -/
theorem Contents.hasLoaded_iff_of_told {c : Contents} {needed : List Property}
    (hasked : ∀ p, c.HasLoaded p → p.LoadedFor needed)
    (htold : ∀ p ∈ needed, ∃ q, p.ServedBy q ∧ c.HasLoaded q.source) (p : Property) :
    c.HasLoaded p ↔ p.LoadedFor needed := by
  refine ⟨hasked p, ?_⟩
  rintro (⟨r, hr, hreprint, rfl⟩ | ⟨hreprint, hrarity, hreleased, rfl⟩)
  · obtain ⟨q, hserved, hq⟩ := htold r hr
    rw [Property.ServedBy, if_neg hreprint] at hserved
    exact hserved ▸ hq
  · obtain ⟨q, hserved, hq⟩ := htold _ hreprint
    rw [Property.ServedBy, if_pos rfl] at hserved
    rw [Property.source_eq_of_perVersion hserved] at hq
    -- of the properties of versions only the set can be the one that is loaded
    obtain rfl | rfl | rfl | rfl : q = .rarity ∨ q = .releasedAt ∨ q = .reprint ∨ q = .set := by
      simpa [Property.perVersion] using hserved
    · exact absurd (((hasked _ hq).mem_or (by decide)).resolve_right (by decide)) hrarity
    · exact absurd (((hasked _ hq).mem_or (by decide)).resolve_right (by decide)) hreleased
    · exact absurd (hasked _ hq).isStored (by decide)
    · exact hq

namespace FileSet

variable {files : FileSet} {source part : Source} {rounds : List Source} {needed : List Property}
  {order : SortOrder} {s : CardStore} {target : LoadTarget} {id : LoadId} {w : Waiting}

/-- A load that came one step on needs one round less. -/
theorem Advances.endsIn {c c' : Contents} {t : LoadTask} {stage : LoadStage}
    (h : files.Advances needed c id t stage c') (hends : t.stage.EndsIn t.file rounds) :
    stage.EndsIn t.file rounds.tail := by
  rcases h.stage_eq with ⟨hstage, rfl⟩ | ⟨-, rfl⟩
  · rw [hstage] at hends
    exact hends
  · trivial

theorem Serves.endsIn_of_poll (h : files.Serves needed order s)
    (hheld : files.HeldBy source needed order) (hpart : part.PartOf source) (j : LoadId)
    (hid : s.EndsIn target id rounds) : (s.poll part j).EndsIn target id rounds := by
  rcases poll_of_partOf hpart s j with hfull | ⟨hsame, -⟩
  · rw [hfull]
    rcases s.exists_pending_or_poll_eq source j with ⟨u, hu, hpending⟩ | hsame
    · obtain ⟨hcurrent, t, ht, hends⟩ := hid
      obtain ⟨stage, hr⟩ := h.advances hheld hu hpending
      refine ⟨(hr.mem_current_iff _).2 hcurrent, ?_⟩
      rw [hr.getElem?_tasks]
      split
      · next heq =>
        subst heq
        cases hu.symm.trans ht
        exact ⟨_, rfl, (hr.endsIn hends).of_tail⟩
      · exact ⟨t, ht, hends⟩
    · rwa [hsame]
  · rwa [hsame]

/-- A load that is polled in the first of these rounds ends in the others. -/
theorem Serves.endsIn_poll (h : files.Serves needed order s)
    (hheld : files.HeldBy source needed order) (hpart : part.PartOf source)
    (hid : s.EndsIn target id (part :: rounds)) : (s.poll part id).EndsIn target id rounds := by
  obtain ⟨hcurrent, t, ht, hends⟩ := hid
  rcases poll_of_partOf hpart s id with hfull | ⟨hsame, u, hu, hstage, hnone⟩
  · rw [hfull]
    cases hresult : t.result? with
    | some r =>
      have hended : t.result? ≠ none := by simp [hresult]
      have hsame : s.poll source id = s := poll_eq_self source fun u hu => by
        cases ht.symm.trans hu
        exact hended
      rw [hsame]
      exact ⟨hcurrent, t, ht, t.endsIn_of_ended hended rounds⟩
    | none =>
      obtain ⟨stage, hr⟩ := h.advances hheld ht hresult
      refine ⟨(hr.mem_current_iff _).2 hcurrent, ?_⟩
      exact ⟨_, (hr.getElem?_tasks id).trans (if_pos rfl), hr.endsIn hends⟩
  · -- the fetch has got no answer in this round, so it gets one in another
    cases ht.symm.trans hu
    rw [hsame]
    refine ⟨hcurrent, t, ht, ?_⟩
    rw [hstage] at hends ⊢
    obtain ⟨answering, hanswering, hsome⟩ := hends
    refine ⟨answering, (List.mem_cons.1 hanswering).resolve_left ?_, hsome⟩
    rintro rfl
    exact hsome hnone

theorem Serves.result_eq (h : files.Serves needed order s) {r : Except LoadError Loaded}
    (hid : s.EndsIn target id rounds) (hr : s.result? id = some r) :
    r = .ok (target.gives files.sorter) :=
  h.result hid.1 hr

/-- A load that is current ends in these rounds if its target has ended, or is answered in one after
the first. -/
theorem Serves.endsIn_of_current (h : files.Serves needed order s)
    (hid : (target, id) ∈ s.contents.current)
    (hends : s.contents.HasEnded target ∨ target.AnsweredIn rounds.tail) :
    s.EndsIn target id rounds := by
  obtain ⟨t, ht, rfl, -⟩ := h.linked.task_of_current hid
  refine ⟨hid, t, ht, ?_⟩
  by_cases hresult : t.result? = none
  · rcases hends with ⟨j, hj, hended⟩ | hanswered
    · -- the load that has ended is this one
      obtain rfl := h.linked.unique hj hid
      rw [Contents.result?, ht, Option.bind_some] at hended
      exact absurd hresult hended
    · have hfile : t.target.file? = some t.file :=
        (h.named id t ht).resolve_right fun hnone => hnone.2.2 hresult
      obtain ⟨part, hpart, hsome⟩ := hanswered _ hfile
      cases hstage : t.stage with
      | requested => exact ⟨part, hpart, hsome⟩
      | fetching => exact ⟨part, List.mem_of_mem_tail hpart, hsome⟩
      | finished r => trivial
  · exact t.endsIn_of_ended hresult rounds

/-- Whoever begins to wait does so for loads that end in these rounds, if each of the targets that
are asked for has ended or is answered in one after the first. -/
theorem Serves.begin (h : files.Serves needed order s) (hheld : files.HeldBy source needed order)
    (hsorted : needed.Pairwise (fun p q => p.index < q.index))
    (hends : ∀ target : LoadTarget, target.AskedFor needed order →
      s.contents.HasEnded target ∨ target.AnsweredIn rounds.tail) :
    files.Serves needed order (Waiting.begin s needed order).1 ∧
      (Waiting.begin s needed order).2.EndsIn (Waiting.begin s needed order).1 order files.sorter
        rounds := by
  obtain ⟨fetched, hvalid⟩ := h.valid
  have hext := (Waiting.sound_begin source hvalid needed order).1.extends
  have hrest : files.Serves needed order (Waiting.begin s needed order).1 :=
    begin_of_askedFor (fun h htarget => h.request hheld htarget) h hsorted
  obtain ⟨hkept, hsorter, hcolumns⟩ := current_begin s needed order
  have hends' {target : LoadTarget} {id : LoadId}
      (hid : (target, id) ∈ (Waiting.begin s needed order).1.contents.current) :
      (Waiting.begin s needed order).1.EndsIn target id rounds := by
    refine hrest.endsIn_of_current hid ((hends target (hrest.asked hid)).imp_left fun hended => ?_)
    exact hended.of_extends hext hkept
  refine ⟨hrest, fun {a} ha _ => ?_, fun _ => hends' hsorter, nofun⟩
  obtain ⟨p, hp⟩ := hcolumns a ha
  exact ⟨p, hends' hp⟩

/-- A round over loads that are waited for does not fail. Those that it has not seen end do so in the
rounds that are left. -/
theorem Serves.pollAll (h : files.Serves needed order s) (hheld : files.HeldBy source needed order)
    (hpart : part.PartOf source) {as : List Awaited}
    (hends : ∀ a ∈ as, a.done = false → ∃ p, s.EndsIn (.column p) a.load (part :: rounds)) :
    ∃ s' as', s.pollAll part as = (s', .ok as') ∧ files.Serves needed order s' ∧
      (∀ a ∈ as', a.done = false → rounds ≠ [] ∧ ∃ p, s'.EndsIn (.column p) a.load rounds) ∧
      ∀ target id rounds, s.EndsIn target id rounds → s'.EndsIn target id rounds := by
  induction as generalizing s with
  | nil => exact ⟨s, [], rfl, h, nofun, fun _ _ _ hid => hid⟩
  | cons a as ih =>
    obtain ⟨hfirst, hrest⟩ := List.forall_mem_cons.1 hends
    rw [CardStore.pollAll]
    split
    · next hdone =>
      obtain ⟨s', as', heq, hs', hleft, hkept⟩ := ih h hrest
      rw [heq]
      refine ⟨s', a :: as', rfl, hs', List.forall_mem_cons.2 ⟨fun hnot => ?_, hleft⟩, hkept⟩
      rw [hdone] at hnot
      cases hnot
    · next hnot =>
      obtain ⟨p, hp⟩ := hfirst (by simpa using hnot)
      have hpoll := h.poll hheld hpart a.load
      have hself := h.endsIn_poll hheld hpart hp
      have hkept (target : LoadTarget) (id : LoadId) (rounds : List Source)
          (hid : s.EndsIn target id rounds) := h.endsIn_of_poll hheld hpart a.load hid
      obtain ⟨s', as', heq, hs', hleft, hkept'⟩ := ih hpoll fun b hb hdone => by
        obtain ⟨q, hq⟩ := hrest b hb hdone
        exact ⟨q, hkept _ _ _ hq⟩
      dsimp only
      rw [heq]
      have hkept'' (target : LoadTarget) (id : LoadId) (rounds : List Source)
          (hid : s.EndsIn target id rounds) := hkept' target id rounds (hkept target id rounds hid)
      split
      · next e he =>
        cases hpoll.result_eq hself he
      · exact ⟨s', _, rfl, hs', List.forall_mem_cons.2 ⟨fun hnot => (by cases hnot), hleft⟩, hkept''⟩
      · next hnone =>
        refine ⟨s', _, rfl, hs', List.forall_mem_cons.2 ⟨fun _ => ?_, hleft⟩, hkept''⟩
        exact ⟨hself.ne_nil hnone, p, hkept' _ _ _ hself⟩

/-- Where the sorter has been seen, either all columns have been, too, or there are others left in
which they end. -/
theorem Serves.settle (h : files.Serves needed order s)
    (hleft : ∀ a ∈ w.columns, a.done = false → rounds ≠ [] ∧ ∃ p, s.EndsIn (.column p) a.load rounds) :
    ∃ s', files.Serves needed order s' ∧ (w.settle s files.sorter = (s', .ready files.sorter) ∨
      ∃ w', w.settle s files.sorter = (s', .pending w') ∧ rounds ≠ [] ∧
        w'.EndsIn s' order files.sorter rounds) := by
  refine ⟨s, h, ?_⟩
  rcases w.settle_cases s files.sorter with ⟨-, heq⟩ | ⟨⟨a, ha, hdone⟩, heq⟩
  · exact .inl heq
  · refine .inr ⟨_, heq, (hleft a ha hdone).1, fun {b} hb hnot => (hleft b hb hnot).2,
      fun hnone => (by cases hnone), fun hsome => (Option.some.inj hsome).symm⟩

/-- A round over all that is waited for does not fail. Either it was the last one, or there are
others left in which it ends. -/
theorem Serves.poll_waiting (h : files.Serves needed order s)
    (hheld : files.HeldBy source needed order) (hpart : part.PartOf source)
    (hw : w.EndsIn s order files.sorter (part :: rounds)) :
    ∃ s', files.Serves needed order s' ∧ (w.poll part s = (s', .ready files.sorter) ∨
      ∃ w', w.poll part s = (s', .pending w') ∧ rounds ≠ [] ∧
        w'.EndsIn s' order files.sorter rounds) := by
  obtain ⟨s', columns, hall, hs', hleft, hkept⟩ := h.pollAll hheld hpart fun a ha => hw.columns ha
  have hpoll := hs'.poll hheld hpart w.sorter
  have hself (hnone : w.sorterSeen = none) :=
    hs'.endsIn_poll hheld hpart (hkept _ _ _ (hw.sorter hnone))
  have hleft' (a : Awaited) (ha : a ∈ columns) (hdone : a.done = false) :
      rounds ≠ [] ∧ ∃ p, (s'.poll part w.sorter).EndsIn (.column p) a.load rounds := by
    obtain ⟨hmore, p, hp⟩ := hleft a ha hdone
    exact ⟨hmore, p, hs'.endsIn_of_poll hheld hpart w.sorter hp⟩
  have hpolls := w.polls_poll part s
  generalize w.poll part s = r at hpolls ⊢
  cases hpolls with
  | failed heq => cases hall.symm.trans heq
  | seen heq hseen =>
    cases hall.symm.trans heq
    obtain rfl := hw.seen hseen
    exact hs'.settle hleft
  | sorterFailed heq hnone hresult =>
    cases hall.symm.trans heq
    cases hpoll.result_eq (hself hnone) hresult
  | sorterEnded heq hnone hresult =>
    cases hall.symm.trans heq
    cases hpoll.result_eq (hself hnone) hresult
    exact hpoll.settle hleft'
  | pending heq hnone hresult =>
    cases hall.symm.trans heq
    refine ⟨_, hpoll, .inr ⟨_, rfl, (hself hnone).ne_nil hresult, ?_, fun _ => hself hnone, hw.seen⟩⟩
    exact fun {a} ha hdone => (hleft' a ha hdone).2

theorem Serves.hasLoaded_iff (h : files.Serves needed order s)
    (htold : ∀ p ∈ needed, ∃ q, p.ServedBy q ∧ s.contents.HasLoaded q.source) (p : Property) :
    s.contents.HasLoaded p ↔ p.LoadedFor needed :=
  hasLoaded_iff_of_told (fun _ ⟨_, hid, _⟩ => h.asked hid) htold p

theorem Serves.catalog_eq (h : files.Serves needed order s)
    (hheld : files.HeldBy source needed order)
    (hloaded : ∀ p : Property, s.contents.HasLoaded p ↔ p.LoadedFor needed) :
    s.catalog = files.catalog needed := by
  refine Catalog.ext (fun q => Option.ext fun column => (h.column q column).trans ?_)
    (Option.ext fun n => (h.length n).trans ?_)
  · rw [hloaded, get?_catalog]
    split
    · next hq => simp [hq, eq_comm]
    · next hq => simp [hq]
  · simp only [hloaded, length?_catalog fun p hp => hheld.size hp]
    split
    · next hnil => simp [hnil, Property.LoadedFor]
    · next hne => simp [Property.exists_loadedFor hne, eq_comm]

end FileSet

end CardSearch
