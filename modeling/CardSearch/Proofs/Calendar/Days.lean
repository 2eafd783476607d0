import CardSearch.ReleaseDate
import Mathlib.Algebra.Group.Nat.Defs

/-!
# The order of days

Days are numbered in the order of the calendar. A year takes up as many numbers as its months have
days, so all days of a year come before those of the next one, and it is the same with the days of a
month. Hence the first and the last day of a year or of a month tell the days before and after it
from those in it.
-/

namespace CardSearch

namespace Calendar

variable {year : Int} {month : Nat}

theorem isDate_iff {day : Nat} : isDate year month day = true ↔
    firstYear ≤ year ∧ year ≤ lastYear ∧ 1 ≤ day ∧ day ≤ daysInMonth year month := by
  simp only [isDate, Bool.and_eq_true, decide_eq_true_eq, and_assoc]

theorem daysInMonth_le (year : Int) (month : Nat) : daysInMonth year month ≤ 31 := by
  unfold daysInMonth
  split
  any_goals decide
  split <;> decide

theorem le_twelve_of_daysInMonth_pos (h : 0 < daysInMonth year month) : month ≤ 12 := by
  unfold daysInMonth at h
  split at h
  any_goals decide
  exact absurd h (Nat.lt_irrefl 0)

private theorem daysBeforeMonth_le (year : Int) (month : Nat) :
    daysBeforeMonth year month ≤ 31 * month := by
  induction month with
  | zero => exact Nat.le_refl 0
  | succ month ih =>
    have hmonth := daysInMonth_le year month
    rw [daysBeforeMonth]
    omega

/-- The days of the calendar are fewer than a hundred million from the first of 1970. -/
theorem natAbs_dayNumber_lt {day : Nat} (h : isDate year month day = true) :
    (dayNumber year month day).natAbs < 100000000 := by
  obtain ⟨hfirst, hlast, hday, hlength⟩ := isDate_iff.1 h
  unfold firstYear at hfirst
  unfold lastYear at hlast
  have hmonth : month ≤ 12 := le_twelve_of_daysInMonth_pos (Nat.lt_of_lt_of_le hday hlength)
  have hlength : day ≤ 31 := Nat.le_trans hlength (daysInMonth_le year month)
  have hbefore := daysBeforeMonth_le year month
  unfold dayNumber daysBeforeYear
  omega

theorem natAbs_lt_of_millis? {day : Nat} {d : Int} (h : millis? year month day = some d) :
    d.natAbs < 100000000 * 86400000 := by
  obtain ⟨hdate, heq⟩ := Option.ite_none_right_eq_some.1 h
  cases heq
  have hday := natAbs_dayNumber_lt hdate
  unfold dayLength
  omega

/-- A date has at most 53 bits. -/
theorem natAbs_lt_of_date {day : Nat} {d : Int} (h : millis? year month day = some d) :
    d.natAbs < 2 ^ 53 :=
  Nat.lt_trans (natAbs_lt_of_millis? h) (by decide)

theorem natAbs_lt_of_periodEnd? {month? : Option Nat} {d : Int}
    (h : periodEnd? year month? = some d) : d.natAbs < 2 ^ 53 := by
  unfold periodEnd? at h
  split at h
  · exact natAbs_lt_of_date h
  · split at h
    · cases h
    · next start hstart =>
      obtain ⟨-, heq⟩ := Option.ite_none_left_eq_some.1 h
      cases heq
      have hstart := natAbs_lt_of_millis? hstart
      unfold dayLength
      omega

variable {year' : Int} {month' : Nat}

theorem daysInMonth_pos (h : 1 ≤ month) (h' : month ≤ 12) : 0 < daysInMonth year month := by
  fun_cases daysInMonth year month
  any_goals decide
  grind

theorem daysBeforeMonth_mono (h : month ≤ month') :
    daysBeforeMonth year month ≤ daysBeforeMonth year month' := by
  induction h with
  | refl => exact Nat.le_refl _
  | step _ ih => exact Nat.le_trans ih (Nat.le_add_right _ _)

private theorem daysBeforeMonth_thirteen (year : Int) :
    daysBeforeMonth year 13 = if isLeap year then 366 else 365 := by
  simp only [daysBeforeMonth, daysInMonth]
  split <;> rfl

theorem daysBeforeYear_add_one (year : Int) :
    daysBeforeYear (year + 1) = daysBeforeYear year + daysBeforeMonth year 13 := by
  rw [daysBeforeMonth_thirteen]
  unfold daysBeforeYear
  split
  · next hleap =>
    simp only [isLeap, Bool.and_eq_true, Bool.or_eq_true, decide_eq_true_eq] at hleap
    omega
  · next hleap =>
    simp only [isLeap, Bool.and_eq_true, Bool.or_eq_true, decide_eq_true_eq] at hleap
    omega

private theorem daysBeforeYear_mono (h : year ≤ year') :
    daysBeforeYear year ≤ daysBeforeYear year' := by
  unfold daysBeforeYear
  omega

end Calendar

open Calendar

structure Day where
  year : Int
  month : Nat
  day : Nat
  isDate : Calendar.isDate year month day = true

namespace Day

def number (d : Day) : Int := dayNumber d.year d.month d.day

def millis (d : Day) : Int := d.number * dayLength

theorem millis?_eq (d : Day) : millis? d.year d.month d.day = some d.millis := if_pos d.isDate

variable {d e : Day}

theorem one_le_day (d : Day) : 1 ≤ d.day := (isDate_iff.1 d.isDate).2.2.1

theorem day_le (d : Day) : d.day ≤ daysInMonth d.year d.month := (isDate_iff.1 d.isDate).2.2.2

theorem month_le (d : Day) : d.month ≤ 12 :=
  le_twelve_of_daysInMonth_pos (Nat.lt_of_lt_of_le d.one_le_day d.day_le)

private theorem one_le_month (d : Day) : 1 ≤ d.month := by
  refine Nat.one_le_iff_ne_zero.2 fun h => ?_
  have hday := Nat.le_trans d.one_le_day d.day_le
  rw [h] at hday
  exact absurd hday (Nat.not_succ_le_zero 0)

private theorem number_lt_of_day_lt (hyear : d.year = e.year) (hmonth : d.month = e.month)
    (h : d.day < e.day) : d.number < e.number := by
  rw [number, number, dayNumber, dayNumber, hyear, hmonth]
  omega

private theorem number_lt_of_month_lt (hyear : d.year = e.year) (h : d.month < e.month) :
    d.number < e.number := by
  have hmonth : daysBeforeMonth d.year (d.month + 1) ≤ daysBeforeMonth d.year e.month :=
    daysBeforeMonth_mono h
  have hday := d.day_le
  have hday' := e.one_le_day
  rw [daysBeforeMonth] at hmonth
  rw [number, number, dayNumber, dayNumber, ← hyear]
  omega

theorem number_lt_of_year_lt (h : d.year < e.year) : d.number < e.number := by
  have hyear : daysBeforeYear (d.year + 1) ≤ daysBeforeYear e.year := daysBeforeYear_mono h
  have hmonth : daysBeforeMonth d.year (d.month + 1) ≤ daysBeforeMonth d.year 13 :=
    daysBeforeMonth_mono (Nat.succ_le_succ d.month_le)
  have hday := d.day_le
  have hday' := e.one_le_day
  rw [daysBeforeYear_add_one] at hyear
  rw [daysBeforeMonth] at hmonth
  rw [number, number, dayNumber, dayNumber]
  omega

/-- How a day stands to a year, to a month or to another day: the years are compared, then the
months and then the days, as far as they are given. -/
def against (d : Day) (year : Int) (month? day? : Option Nat) : Ordering :=
  (compare d.year year).then ((month?.elim .eq fun month => compare d.month month).then
    (day?.elim .eq fun day => compare d.day day))

private theorem number_lt_of_against (h : d.against e.year (some e.month) (some e.day) = .lt) :
    d.number < e.number := by
  simp only [against, Option.elim_some, Ordering.then_eq_lt, Int.compare_eq_lt, Int.compare_eq_eq,
    Nat.compare_eq_lt, Nat.compare_eq_eq] at h
  rcases h with hyear | ⟨hyear, hmonth | ⟨hmonth, hday⟩⟩
  · exact number_lt_of_year_lt hyear
  · exact number_lt_of_month_lt hyear hmonth
  · exact number_lt_of_day_lt hyear hmonth hday

private theorem against_swap (d e : Day) : (d.against e.year (some e.month) (some e.day)).swap =
    e.against d.year (some d.month) (some d.day) := by
  simp only [against, Option.elim_some, Ordering.swap_then, Int.compare_swap, Nat.compare_swap]

private theorem number_eq_of_against (h : d.against e.year (some e.month) (some e.day) = .eq) :
    d.number = e.number := by
  simp only [against, Option.elim_some, Ordering.then_eq_eq, Int.compare_eq_eq,
    Nat.compare_eq_eq] at h
  obtain ⟨hyear, hmonth, hday⟩ := h
  rw [number, number, hyear, hmonth, hday]

theorem compare_eq_of {a b : Int} {o : Ordering} (hlt : o = .lt → a < b) (heq : o = .eq → a = b)
    (hgt : o = .gt → b < a) : compare a b = o := by
  cases o with
  | lt => exact Int.compare_eq_lt.2 (hlt rfl)
  | eq => exact Int.compare_eq_eq.2 (heq rfl)
  | gt => exact Int.compare_eq_gt.2 (hgt rfl)

theorem compare_number (d e : Day) :
    compare d.number e.number = d.against e.year (some e.month) (some e.day) :=
  compare_eq_of number_lt_of_against number_eq_of_against fun h =>
    number_lt_of_against (by rw [← against_swap, h, Ordering.swap_gt])

theorem millis_lt (h : d.number < e.number) : d.millis < e.millis := by
  unfold millis dayLength
  omega

theorem compare_millis (d e : Day) :
    compare d.millis e.millis = d.against e.year (some e.month) (some e.day) := by
  rw [← compare_number]
  refine compare_eq_of (fun h => millis_lt (Int.compare_eq_lt.1 h)) (fun h => ?_)
    (fun h => millis_lt (Int.compare_eq_gt.1 h))
  rw [millis, millis, Int.compare_eq_eq.1 h]

/-- No day of a period comes before its first day. -/
theorem against_first (d : Day) (year : Int) (month? : Option Nat) :
    d.against year (some (month?.getD 1)) (some 1) = .lt ↔ d.against year month? none = .lt := by
  have hday : compare d.day 1 ≠ .lt := Nat.compare_ne_lt.2 d.one_le_day
  have hmonth : compare d.month 1 ≠ .lt := Nat.compare_ne_lt.2 d.one_le_month
  cases month? <;> simp [against, Ordering.then_eq_lt, hday, hmonth]

/-- No day of a period comes after its last day. -/
theorem against_last (d : Day) (year : Int) (month? : Option Nat) :
    d.against year (some (month?.getD 12)) (some (daysInMonth year (month?.getD 12))) = .gt ↔
      d.against year month? none = .gt := by
  have hlength (month : Nat) :
      d.against year (some month) (some (daysInMonth year month)) = .gt ↔
        d.against year (some month) none = .gt := by
    simp only [against, Option.elim_some, Option.elim_none, Ordering.then_eq_gt, Ordering.then_eq]
    refine or_congr_right (and_congr_right fun hyear => or_iff_left fun ⟨hmonth, hday⟩ => ?_)
    rw [← Int.compare_eq_eq.1 hyear, ← Nat.compare_eq_eq.1 hmonth] at hday
    exact Nat.compare_ne_gt.2 d.day_le hday
  cases month? with
  | none =>
    have hmonth : compare d.month 12 ≠ .gt := Nat.compare_ne_gt.2 d.month_le
    rw [Option.getD_none, hlength]
    simp [against, Ordering.then_eq_gt, hmonth]
  | some month => exact hlength month

end Day

namespace Calendar

variable {month? : Option Nat}

theorem exists_periodStart? (hfirst : firstYear ≤ year) (hlast : year ≤ lastYear)
    (hmonth : ∀ month ∈ month?, 1 ≤ month ∧ month ≤ 12) :
    ∃ first, periodStart? year month? = some first ∧
      ∀ d : Day, compare d.millis first = .lt ↔ d.against year month? none = .lt := by
  have hmonth : 1 ≤ month?.getD 1 ∧ month?.getD 1 ≤ 12 := by
    cases month? with
    | none => decide
    | some month => exact hmonth month rfl
  have hdate : isDate year (month?.getD 1) 1 = true :=
    isDate_iff.2 ⟨hfirst, hlast, Nat.le_refl 1, daysInMonth_pos hmonth.1 hmonth.2⟩
  let first : Day := ⟨year, _, 1, hdate⟩
  refine ⟨first.millis, first.millis?_eq, fun d => ?_⟩
  rw [Day.compare_millis]
  exact d.against_first year month?

theorem millis?_sub_dayLength (hfirst : firstYear < year) (hlast : year ≤ lastYear)
    (hmonth : month < 12) (hdate : isDate year month (daysInMonth year month) = true) :
    ∃ next, millis? year (month + 1) 1 = some next ∧
      next ≠ dayNumber firstYear 1 1 * dayLength ∧
        next - dayLength = Day.millis ⟨year, month, daysInMonth year month, hdate⟩ := by
  have hdate' : isDate year (month + 1) 1 = true :=
    isDate_iff.2 ⟨Int.le_of_lt hfirst, hlast, Nat.le_refl 1,
      daysInMonth_pos (Nat.le_add_left 1 month) hmonth⟩
  let last : Day := ⟨year, month, _, hdate⟩
  let next : Day := ⟨year, month + 1, 1, hdate'⟩
  let start : Day := ⟨firstYear, 1, 1, by decide⟩
  have hstart : start.millis < next.millis := Day.millis_lt (Day.number_lt_of_year_lt hfirst)
  have hnumber : next.number = last.number + 1 := by
    simp only [Day.number, dayNumber, next, last, daysBeforeMonth]
    omega
  refine ⟨next.millis, next.millis?_eq, Int.ne_of_gt hstart, ?_⟩
  change next.number * dayLength - dayLength = last.number * dayLength
  rw [hnumber]
  unfold dayLength
  omega

theorem exists_periodEnd? (hfirst : firstYear < year) (hlast : year ≤ lastYear)
    (hmonth : ∀ month ∈ month?, 1 ≤ month ∧ month ≤ 12) :
    ∃ last, periodEnd? year month? = some last ∧
      ∀ d : Day, compare d.millis last = .gt ↔ d.against year month? none = .gt := by
  have hmonth : 1 ≤ month?.getD 12 ∧ month?.getD 12 ≤ 12 := by
    cases month? with
    | none => decide
    | some month => exact hmonth month rfl
  have hdate : isDate year (month?.getD 12) (daysInMonth year (month?.getD 12)) = true :=
    isDate_iff.2 ⟨Int.le_of_lt hfirst, hlast, daysInMonth_pos hmonth.1 hmonth.2, Nat.le_refl _⟩
  let last : Day := ⟨year, _, _, hdate⟩
  refine ⟨last.millis, ?_, fun d => ?_⟩
  · rw [periodEnd?]
    split
    · next heq =>
      rw [← last.millis?_eq]
      change _ = millis? year (month?.getD 12) (daysInMonth year (month?.getD 12))
      rw [heq]
      rfl
    · next hne =>
      have hlt : month?.getD 12 < 12 := Nat.lt_of_le_of_ne hmonth.2 hne
      obtain ⟨next, hnext, hstart, heq⟩ := millis?_sub_dayLength hfirst hlast hlt hdate
      rw [hnext]
      exact (if_neg hstart).trans (congrArg some heq)
  · rw [Day.compare_millis]
    exact d.against_last year month?

end Calendar

end CardSearch
