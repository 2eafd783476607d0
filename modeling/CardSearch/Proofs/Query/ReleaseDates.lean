import CardSearch.Proofs.Calendar.Reading
import CardSearch.Proofs.Evaluation.Room
import CardSearch.Proofs.Query.Denial
import CardSearch.ReleaseDate

/-!
# Release dates against years and months

A condition on release dates selects the days that stand to a year, to a month or to a day as the
comparison says. The first day of a period tells the days before it from all others, the last day the
days after it. So orders are decided by one of the two, and a day lies in the period if it is neither
before nor after it.
-/

namespace CardSearch

namespace CompareOp

variable {op : CompareOp} {o o' : Ordering}

theorem accepts_congr_gt (hop : op = gt ∨ op = le) (h : o = .gt ↔ o' = .gt) :
    op.accepts o = op.accepts o' := by
  revert h
  rcases hop with rfl | rfl <;> cases o <;> cases o' <;> decide

theorem accepts_congr_lt (hop : op = lt ∨ op = ge) (h : o = .lt ↔ o' = .lt) :
    op.accepts o = op.accepts o' := by
  revert h
  rcases hop with rfl | rfl <;> cases o <;> cases o' <;> decide

end CompareOp

structure Leaf.Selects (l : Leaf) (days : Day → Bool) : Prop where
  property_eq : l.property = .releasedAt
  fits : l.Fits
  answer (d : Day) : l.matchesDatum (.date d.millis) = .ok (days d)

inductive Condition.Selects (days : Day → Bool) : Condition → Prop
  | leaf {l : Leaf} (h : l.Selects days) : Selects days (.leaf l)
  | not {l : Leaf} (h : l.Selects fun d => !days d) : Selects days (.not (.leaf l))

variable {days : Day → Bool}

theorem Leaf.selects_compare (op : CompareOp) (date : Int) :
    (compare op .releasedAt (.date date)).Selects fun d =>
      op.accepts (Ord.compare d.millis date) where
  property_eq := rfl
  fits := .inl rfl
  answer _ := rfl

theorem Leaf.selects_range (first last : Int) :
    (range .releasedAt (.date first) true (.date last) true).Selects fun d =>
      Ord.compare d.millis first != .lt && Ord.compare d.millis last != .gt where
  property_eq := rfl
  fits := ⟨rfl, rfl, by decide⟩
  answer d := by
    simp only [matchesDatum, between, Datum.order, Datum.order?, bind, Except.bind]
    cases Ord.compare d.millis first <;> cases Ord.compare d.millis last <;> rfl

theorem Leaf.Selects.of_eq {l : Leaf} {days' : Day → Bool} (h : l.Selects days)
    (heq : ∀ d, days d = days' d) : l.Selects days' :=
  funext heq ▸ h

private theorem Leaf.Selects.answers {l : Leaf} (h : l.Selects days) {catalog : Catalog}
    (hcatalog : catalog.Reachable) (subsets : SubsetStore) (c : Condition) (record : Nat) :
    Answers (EvalContext.test ⟨catalog, subsets, c⟩ record) l :=
  h.fits.answers hcatalog.ofKinds subsets c record

namespace Condition.Selects

variable {c : Condition}

theorem references_eq_nil (h : c.Selects days) : c.references = [] := by
  cases h <;> simp [references]

private theorem copies_le_one (h : c.Selects days) : c.copies ≤ 1 := by
  cases h with
  | leaf => exact Nat.zero_le 1
  | not => exact Nat.le_refl 1

theorem each (h : c.Selects days) {catalog : Catalog} (hcatalog : catalog.Reachable)
    (subsets : SubsetStore) (record : Nat) :
    c.Each (Answers (EvalContext.test ⟨catalog, subsets, c⟩ record)) := by
  cases h with
  | leaf hl => exact each_leaf.2 (hl.answers hcatalog subsets _ record)
  | not hl => exact each_not.2 (each_leaf.2 (hl.answers hcatalog subsets _ record))

/-- An evaluation finds a version that was released on a day if the day is selected, and it fails at
most of an operation on sets. -/
theorem evaluate (h : c.Selects days) {catalog : Catalog} (hcatalog : catalog.Reachable)
    {record v : Nat} (hv : v < (catalog.versionCount? record).getD 1) {d : Day}
    (hvalue : catalog.getForVersion record v .releasedAt = .one (.date d.millis))
    (ev : Evaluator) (subsets : SubsetStore) :
    match (ev.evaluate ⟨catalog, subsets, c⟩ record).versions with
    | .ok versions => v ∈ versions ↔ days d = true
    | .error cause => ∃ e, cause = .set e := by
  split
  · next versions heval =>
    have hfinds := Evaluator.finds_of_evaluate_of_references_eq_nil h.references_eq_nil heval
    cases h with
    | @leaf l hl =>
      obtain ⟨b, hb, hmem⟩ := hfinds.exists_answer (l := l) (p := True)
        (fun leaf => by simp [EvalContext.Satisfied]) hv
      rw [hl.property_eq, hvalue] at hb
      cases (hl.answer d).symm.trans hb
      simpa using hmem
    | @not l hl =>
      obtain ⟨b, hb, hmem⟩ := hfinds.exists_answer (l := l) (p := False)
        (fun leaf => by simp [EvalContext.Satisfied]) hv
      rw [hl.property_eq, hvalue] at hb
      cases (hl.answer d).symm.trans hb
      simpa using hmem
  · next cause heval =>
    rw [ev.evaluate_of_references_eq_nil h.references_eq_nil subsets ∅] at heval
    exact Evaluator.evaluate_error (fun id subset hsubset => by cases hsubset)
      (h.each hcatalog ∅ record) heval

/-- In arenas of the usual size an evaluation does not fail. -/
theorem exists_versions (h : c.Selects days) {catalog : Catalog} (hcatalog : catalog.Reachable)
    {record : Nat} (hcount : (catalog.versionCount? record).getD 1 ≤ mostVersions)
    (selection : SetSelection) (subsets : SubsetStore) :
    ∃ versions, ((Evaluator.new selection defaultArenaBytes).evaluate
      ⟨catalog, subsets, c⟩ record).versions = .ok versions := by
  have hsets : 1 + c.copies ≤ 128 :=
    Nat.le_trans (Nat.add_le_add_left h.copies_le_one 1) (by decide)
  exact Evaluator.exists_versions h.references_eq_nil (h.each hcatalog subsets record) hcount
    (Evaluator.hasRoom_new selection hsets hcount)

end Condition.Selects

section

variable {year : Int} {month? : Option Nat}

theorem not_outside_calendar (hfirst : firstReleaseYear ≤ year)
    (hmonth : ∀ month ∈ month?, 1 ≤ month ∧ month ≤ 12) :
    (decide (year < firstReleaseYear) ||
      month?.any fun month => decide (month < 1) || decide (12 < month)) = false := by
  refine Bool.or_eq_false_iff.2 ⟨decide_eq_false (Int.not_lt.2 hfirst), ?_⟩
  cases month? with
  | none => rfl
  | some month =>
    obtain ⟨hone, htwelve⟩ := hmonth month rfl
    simp only [Option.any_some, Bool.or_eq_false_iff, decide_eq_false_iff_not]
    omega

private theorem exists_releaseCondition?_day (op : CompareOp) {month day : Nat}
    (hfirst : firstReleaseYear ≤ year) (hmonth : ∀ m ∈ some month, 1 ≤ m ∧ m ≤ 12)
    (hdate : Calendar.isDate year month day = true) :
    ∃ c, releaseCondition? op year (some month) (some day) = some c ∧
      c.Selects fun d => op.accepts (d.against year (some month) (some day)) := by
  let e : Day := ⟨year, month, day, hdate⟩
  have hguard := not_outside_calendar hfirst hmonth
  have he : Calendar.millis? year month day = some e.millis := e.millis?_eq
  refine ⟨.compare op .releasedAt (.date e.millis), ?_,
    .leaf ((Leaf.selects_compare op e.millis).of_eq fun d => ?_)⟩
  · simp only [releaseCondition?, hguard, he]
    rfl
  · rw [Day.compare_millis]

/-- To lie in a period is neither to come before its first day nor after its last one. -/
theorem exists_releaseCondition?_period (op : CompareOp) (hfirst : firstReleaseYear ≤ year)
    (hlast : year ≤ Calendar.lastYear) (hmonth : ∀ month ∈ month?, 1 ≤ month ∧ month ≤ 12) :
    ∃ c, releaseCondition? op year month? none = some c ∧
      c.Selects fun d => op.accepts (d.against year month? none) := by
  have hguard := not_outside_calendar hfirst hmonth
  have hcalendar : Calendar.firstYear < year := Int.lt_of_lt_of_le (by decide) hfirst
  obtain ⟨first, hstart, hbefore⟩ :=
    Calendar.exists_periodStart? (Int.le_of_lt hcalendar) hlast hmonth
  obtain ⟨last, hend, hafter⟩ := Calendar.exists_periodEnd? hcalendar hlast hmonth
  have hperiod : releaseCondition?.period year month? =
      some (.leaf (.range .releasedAt (.date first) true (.date last) true)) := by
    simp [releaseCondition?.period, hstart, hend]
  have hrange : (Leaf.range .releasedAt (.date first) true (.date last) true).Selects fun d =>
      d.against year month? none == .eq :=
    (Leaf.selects_range first last).of_eq fun d => by
      rw [Bool.eq_iff_iff, Bool.and_eq_true, bne_iff_ne, bne_iff_ne, Ne, Ne, hbefore, hafter]
      cases d.against year month? none <;> simp
  have hcompareLast (op : CompareOp) (hop : op = .gt ∨ op = .le) :
      ∃ c, releaseCondition? op year month? none = some c ∧
        c.Selects fun d => op.accepts (d.against year month? none) := by
    refine ⟨.compare op .releasedAt (.date last), ?_, .leaf
      ((Leaf.selects_compare op last).of_eq fun d => CompareOp.accepts_congr_gt hop (hafter d))⟩
    rcases hop with rfl | rfl <;> simp only [releaseCondition?, hguard, hend] <;> rfl
  have hcompareFirst (op : CompareOp) (hop : op = .lt ∨ op = .ge) :
      ∃ c, releaseCondition? op year month? none = some c ∧
        c.Selects fun d => op.accepts (d.against year month? none) := by
    refine ⟨.compare op .releasedAt (.date first), ?_, .leaf
      ((Leaf.selects_compare op first).of_eq fun d => CompareOp.accepts_congr_lt hop (hbefore d))⟩
    rcases hop with rfl | rfl <;> simp only [releaseCondition?, hguard, hstart] <;> rfl
  cases op with
  | eq =>
    refine ⟨_, ?_, .leaf hrange⟩
    simp only [releaseCondition?, hguard, hperiod]
    rfl
  | ne =>
    refine ⟨_, ?_, .not (hrange.of_eq fun d => (Bool.not_not _).symm)⟩
    simp only [releaseCondition?, hguard, hperiod]
    rfl
  | gt => exact hcompareLast .gt (.inl rfl)
  | le => exact hcompareLast .le (.inr rfl)
  | lt => exact hcompareFirst .lt (.inl rfl)
  | ge => exact hcompareFirst .ge (.inr rfl)

end

/-- What is asked for is a year, a month of a year or a day of the calendar. It has a condition, and
a version that was released on a day satisfies it if the day stands to what is asked for as the
comparison says. A release date is the start of the day that its text writes. An evaluation can only
run out of room for sets, and in arenas of the usual size it does not. -/
theorem releaseCondition_compares_days (op : CompareOp) {year : Int} {month? day? : Option Nat}
    (hfirst : 100 ≤ year) (hlast : year ≤ 262142)
    (hmonth : ∀ month ∈ month?, 1 ≤ month ∧ month ≤ 12)
    (hday : ∀ day ∈ day?, ∃ month ∈ month?, Calendar.isDate year month day = true) :
    ∃ c, releaseCondition? op year month? day? = some c ∧
      ∀ d : Day, 0 ≤ d.year → d.year ≤ 9999 →
        ∃ millis, Calendar.read? d.text.toList = some millis ∧
          Calendar.millis? d.year d.month d.day = some millis ∧
          ∀ catalog : Catalog, catalog.Reachable → ∀ record v : Nat,
            v < (catalog.versionCount? record).getD 1 →
            catalog.getForVersion record v .releasedAt = .one (.date millis) →
            ∀ subsets : SubsetStore,
              (∀ ev : Evaluator,
                match (ev.evaluate ⟨catalog, subsets, c⟩ record).versions with
                | .ok versions => v ∈ versions ↔ op.accepts (d.against year month? day?) = true
                | .error cause => ∃ e, cause = .set e) ∧
              ((catalog.versionCount? record).getD 1 ≤ mostVersions → ∀ selection : SetSelection,
                ∃ versions, ((Evaluator.new selection defaultArenaBytes).evaluate
                  ⟨catalog, subsets, c⟩ record).versions = .ok versions) := by
  have hselects : ∃ c, releaseCondition? op year month? day? = some c ∧
      c.Selects fun d => op.accepts (d.against year month? day?) := by
    cases day? with
    | none => exact exists_releaseCondition?_period op hfirst hlast hmonth
    | some day =>
      obtain ⟨month, rfl, hdate⟩ := hday day rfl
      exact exists_releaseCondition?_day op hfirst hmonth hdate
  obtain ⟨c, hc, hselects⟩ := hselects
  refine ⟨c, hc, fun d hfirst hlast => ⟨d.millis, d.read?_text hfirst hlast, d.millis?_eq, ?_⟩⟩
  intro catalog hcatalog record v hv hvalue subsets
  exact ⟨fun ev => hselects.evaluate hcatalog hv hvalue ev subsets,
    fun hcount selection => hselects.exists_versions hcatalog hcount selection subsets⟩

/-- A card that was printed on the last day of a February and on the day after it. -/
def leapDay : Catalog := Catalog.putStored ∅ .releasedAt #[.dates [1078012800000, 1078099200000]]

/-- Of the two printings the first one was released in February 2004 or before, and it alone. -/
theorem releaseCondition_compares_days_leapDay :
    let february : Day := ⟨2004, 2, 29, by decide⟩
    february.text = "2004-02-29" ∧ leapDay.Reachable ∧
      ∃ c, releaseCondition? .le 2004 (some 2) none = some c ∧
        ∃ versions, ((Evaluator.new {} defaultArenaBytes).evaluate ⟨leapDay, ∅, c⟩ 0).versions =
          .ok versions ∧ 0 ∈ versions ∧ 1 ∉ versions := by
  intro february
  let march : Day := ⟨2004, 3, 1, by decide⟩
  have hinsert : Catalog.insert ∅ .releasedAt
      (.list [.list [.text "2004-02-29", .text "2004-03-01"]]) = .ok leapDay := by rfl
  have hcatalog : leapDay.Reachable := Catalog.Reachable.cleared.insert hinsert
  have hmonth : ∀ month ∈ some 2, 1 ≤ month ∧ month ≤ 12 := by decide
  have hday : ∀ day ∈ none, ∃ month ∈ some 2, Calendar.isDate 2004 month day = true := nofun
  obtain ⟨c, hc, hdays⟩ := releaseCondition_compares_days .le (by decide) (by decide) hmonth hday
  obtain ⟨millis, -, hmillis, hfebruary⟩ := hdays february (by decide) (by decide)
  obtain ⟨millis', -, hmillis', hmarch⟩ := hdays march (by decide) (by decide)
  have hvalue : Calendar.millis? 2004 2 29 = some 1078012800000 := by decide
  have hvalue' : Calendar.millis? 2004 3 1 = some 1078099200000 := by decide
  obtain rfl := Option.some.inj (hvalue.symm.trans hmillis)
  obtain rfl := Option.some.inj (hvalue'.symm.trans hmillis')
  obtain ⟨hfirst, hends⟩ := hfebruary leapDay hcatalog 0 0 (by decide) rfl ∅
  obtain ⟨hsecond, -⟩ := hmarch leapDay hcatalog 0 1 (by decide) rfl ∅
  obtain ⟨versions, heval⟩ := hends (by decide) {}
  have hfound := hfirst (.new {} defaultArenaBytes)
  have hmissed := hsecond (.new {} defaultArenaBytes)
  rw [heval] at hfound hmissed
  exact ⟨by decide, hcatalog, c, hc, versions, heval, hfound.2 (by decide),
    fun h => absurd (hmissed.1 h) (by decide)⟩

end CardSearch
