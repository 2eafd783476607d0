import CardSearch.Proofs.Engine.Session

/-!
# What a search has read

A search that succeeds has read one snapshot if the store was not cleared since its last attempt
began. No attempt looks whether it was: if another load finds the files replaced after all loads of
a search have ended, the search evaluates what has been loaded again by then.
-/

namespace CardSearch

namespace Contents

/-- The columns that tell of the properties and the index of a sorter are from one creation time. -/
def Snapshot (c : Contents) (fetched : Fetched) (needed : List Property) (sorter : Sorter) : Prop :=
  ∃ time, (∀ p ∈ needed, ∃ q, p.ServedBy q ∧
    ∃ id, (.column q.source, id) ∈ c.current ∧ c.Gave fetched id q time) ∧
    ∀ time', sorter.creationTime? = some time' → time' = time

/-- The columns that tell of the properties are loaded, and the index of a sorter is from the
creation time of the store. -/
def Reloaded (c : Contents) (needed : List Property) (sorter : Sorter) : Prop :=
  (∀ p ∈ needed, ∃ q, p.ServedBy q ∧
    ∃ id, (.column q.source, id) ∈ c.current ∧ ∃ l, c.result? id = some (.ok l)) ∧
    ∀ time, sorter.creationTime? = some time → needed = [] ∨ c.creationTime? = some time

variable {c : Contents} {fetched : Fetched} {needed : List Property} {sorter : Sorter}

theorem Gave.time_eq {id : LoadId} {q q' : Property} {time time' : UInt64}
    (h : c.Gave fetched id q time) (h' : c.Gave fetched id q' time') : time = time' := by
  obtain ⟨-, bytes, payload, _, hbytes, hread, rfl, -⟩ := h
  obtain ⟨-, bytes', payload', _, hbytes', hread', rfl, -⟩ := h'
  cases hbytes.symm.trans hbytes'
  cases hread.symm.trans hread'
  rfl

/-- A store is of one creation time, so all that is loaded is a snapshot. -/
theorem Valid.snapshot_iff (h : c.Valid fetched) :
    c.Snapshot fetched needed sorter ↔ c.Reloaded needed sorter := by
  constructor
  · rintro ⟨time, hcolumns, hsorter⟩
    refine ⟨fun p hp => ?_, fun time' htime' => ?_⟩
    · obtain ⟨q, hserved, id, hid, hgave⟩ := hcolumns p hp
      exact ⟨q, hserved, id, hid, _, hgave.1⟩
    · cases needed with
      | nil => exact .inl rfl
      | cons p ps =>
        obtain ⟨q, -, id, hid, hgave⟩ := hcolumns p List.mem_cons_self
        obtain ⟨time'', hcreation, hall⟩ := h.column hid hgave.1
        rw [hsorter time' htime', hgave.time_eq (hall q rfl)]
        exact .inr hcreation
  · rintro ⟨hcolumns, hsorter⟩
    cases needed with
    | nil =>
      refine ⟨sorter.creationTime?.getD 0, nofun, fun time htime => ?_⟩
      rw [htime]
      rfl
    | cons p ps =>
      obtain ⟨_, -, id, hid, l, hl⟩ := hcolumns p List.mem_cons_self
      obtain ⟨time, hcreation, -⟩ := h.column hid hl
      refine ⟨time, fun p' hp' => ?_, fun time' htime' => ?_⟩
      · obtain ⟨q, hserved, id', hid', l', hl'⟩ := hcolumns p' hp'
        obtain ⟨time', hcreation', hgave⟩ := h.column hid' hl'
        cases hcreation.symm.trans hcreation'
        exact ⟨q, hserved, id', hid', hgave q rfl⟩
      · have hcreation' := (hsorter time' htime').resolve_left (List.cons_ne_nil p ps)
        exact Option.some.inj (hcreation'.symm.trans hcreation)

/-- A load that is held and ended well is current, unless the store was cleared since. -/
theorem Held.current_of_ok {target : LoadTarget} {id : LoadId} {l : Loaded}
    (h : c.Held c.generation target id) (hl : c.result? id = some (.ok l)) :
    (target, id) ∈ c.current := by
  refine (h.current rfl).resolve_right fun ⟨e, he⟩ => ?_
  rw [hl] at he
  cases he

/-- What was waited for is loaded if the store was not cleared since. -/
theorem reloaded_of_sound {s : CardStore} {w : Waiting} {order : SortOrder}
    (hvalid : s.contents.Valid fetched) (hsound : w.Sound s needed order s.generation)
    (hready : w.Ready s sorter) : s.contents.Reloaded needed sorter := by
  refine ⟨fun p hp => ?_, fun time htime => ?_⟩
  · obtain ⟨id, hid, q, hserved, hheld⟩ := hsound.column hp
    obtain ⟨l, hl⟩ := hready.columns hid
    exact ⟨q, hserved, id, hheld.current_of_ok hl, l, hl⟩
  · have hcurrent := hsound.sorter.current_of_ok hready.sorter
    exact .inr (hvalid.sorter hcurrent hready.sorter htime)

end Contents

namespace Session

/-- In whatever order searches and preloads take their steps, and whatever the source answers: a
search that succeeds answers from the store as it is then. What it has read is one snapshot if the
store was not cleared since its last attempt began; else only if all that it needs was loaded
again, which nothing checks. -/
theorem snapshot_iff_of_success (refetchInterval : Nat) (subsets : SubsetStore)
    (settings : EngineSettings) (actions : List SessionStep) (source : Source) (id : RunId)
    (result : QueryResult) :
    let before := (start refetchInterval subsets settings).run actions
    let after := before.step (.poll source id)
    before.engine.result? id = none → after.engine.result? id = some (.ok result) →
      ∃ run sorter, after.engine.runs[id]? = some run ∧
        sorter.order? = some run.key.order ∧ after.engine.Answers run sorter result ∧
        (after.engine.store.contents.Snapshot after.fetched (after.engine.needed run.query) sorter ↔
          after.began id = after.engine.store.generation ∨
            after.engine.store.contents.Reloaded (after.engine.needed run.query) sorter) := by
  intro before after hbefore hafter
  have hvalid : before.Valid := (valid_start refetchInterval subsets settings).run actions
  have hvalid' : after.Valid := hvalid.step _
  obtain ⟨run, hrun⟩ : ∃ run, before.engine.runs[id]? = some run := by
    cases hnone : before.engine.runs[id]? with
    | some run => exact ⟨run, rfl⟩
    | none =>
      have hsame : after.engine = before.engine :=
        Engine.poll_eq_self source fun run hrun => by
          rw [hnone] at hrun
          cases hrun
      rw [hsame, hbefore] at hafter
      cases hafter
  have hended : run.result? = none := by
    rw [Engine.result?, hrun] at hbefore
    exact hbefore
  obtain ⟨run', hrun', hpolls⟩ := hvalid.pollsRun source hrun hended
  have hresult : run'.result? = some (.ok result) := by
    rw [Engine.result?, hrun'] at hafter
    exact hafter
  have hstage := Run.stage_of_result hresult
  -- the attempt that succeeded held its loads since it began
  have hattempted := hpolls.attempted.resolve_left fun ⟨error, herror⟩ => by
    rw [hstage] at herror
    cases herror
  rw [← began_poll hrun hrun', Engine.Attempted, hstage] at hattempted
  obtain ⟨w, sorter, hsound, hready, hanswers⟩ := hattempted
  refine ⟨run', sorter, hrun', (Waiting.result_of_sound hvalid'.store hsound hready.sorter).2,
    hanswers, hvalid'.store.snapshot_iff.trans ⟨.inr, ?_⟩⟩
  rintro (hbegan | hreloaded)
  · rw [hbegan] at hsound
    exact Contents.reloaded_of_sound hvalid'.store hsound hready
  · exact hreloaded

/-- A search for an odd mana value whose only column is loaded. Before it is polled again the source
turns to newer files, and another load finds that out, clears the store and is made again. -/
def overtaken : Session :=
  let silent : Source := fun _ => none
  -- of the earlier files a record with the value 1, of the later ones a record without a value
  let earlier : Source := fun _ => some (.ok [0x5b, 0x37, 0x2c, 0x5b, 0x31, 0x5d, 0x5d])
  let later : Source := fun _ =>
    some (.ok [0x5b, 0x38, 0x2c, 0x5b, 0x6e, 0x75, 0x6c, 0x6c, 0x5d, 0x5d])
  (start 0 ∅ { display := [] }).run
    [.request ⟨{.cmc}, .leaf (.parity .odd .cmc)⟩ .name true, .poll silent 0, .pollLoad earlier 1,
      .load .rarity, .pollLoad silent 2, .pollLoad later 2,
      .load .rarity, .pollLoad silent 3, .pollLoad later 3]

/-- The search that was overtaken finds nothing, and has read no snapshot. -/
theorem snapshot_iff_of_success_overtaken :
    let after := overtaken.step (.poll (fun _ => none) 0)
    overtaken.engine.result? 0 = none ∧ ∃ result, after.engine.result? 0 = some (.ok result) ∧
      result.records = [] ∧ ∃ run sorter, after.engine.runs[0]? = some run ∧
        sorter.order? = some run.key.order ∧ after.engine.Answers run sorter result ∧
        ¬after.engine.store.contents.Snapshot after.fetched (after.engine.needed run.query)
          sorter := by
  intro after
  have hbefore : overtaken.engine.result? 0 = none :=
    Option.isNone_iff_eq_none.1 (by decide +kernel)
  obtain ⟨result, hafter, hrecords⟩ : ∃ result, after.engine.result? 0 = some (.ok result) ∧
      result.records = [] := by
    have hok : ((after.engine.result? 0).bind Except.toOption).map QueryResult.records =
        some [] := by decide +kernel
    cases hresult : after.engine.result? 0 with
    | none =>
      rw [hresult] at hok
      cases hok
    | some r =>
      rw [hresult] at hok
      cases r with
      | error e => cases hok
      | ok result => exact ⟨result, rfl, Option.some.inj hok⟩
  obtain ⟨run, sorter, hrun, horder, hanswers, hsnapshot⟩ : ∃ run sorter,
      after.engine.runs[0]? = some run ∧ sorter.order? = some run.key.order ∧
        after.engine.Answers run sorter result ∧
        (after.engine.store.contents.Snapshot after.fetched (after.engine.needed run.query) sorter ↔
          after.began 0 = after.engine.store.generation ∨
            after.engine.store.contents.Reloaded (after.engine.needed run.query) sorter) :=
    snapshot_iff_of_success _ _ _ _ _ 0 result hbefore hafter
  refine ⟨hbefore, result, hafter, hrecords, run, sorter, hrun, horder, hanswers, ?_⟩
  have hneeded : after.engine.needed run.query = [.cmc] := by
    have hmap : (after.engine.runs[0]?.map fun run => after.engine.needed run.query) =
        some [.cmc] := by decide +kernel
    rw [hrun] at hmap
    exact Option.some.inj hmap
  rw [hsnapshot, hneeded]
  rintro (hbegan | ⟨hcolumns, -⟩)
  · exact absurd hbegan (by decide +kernel)
  · obtain ⟨q, hserved, id, hid, -⟩ := hcolumns .cmc List.mem_cons_self
    rw [Property.ServedBy, if_neg (by decide)] at hserved
    subst hserved
    have hother : ∀ x ∈ after.engine.store.current, x.1 ≠ .column .cmc := by decide +kernel
    exact hother _ hid rfl

end Session

end CardSearch
