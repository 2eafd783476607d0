import CardSearch.Condition
import CardSearch.Text.Characters

/-!
# Release dates

Days belong to the Gregorian calendar, carried back before its adoption. They are numbered from the
first of January 1970, and dates are stated in milliseconds at the start of the day. A day is written
as its year, month and day with hyphens between them. Blanks may stand before each number. A year
without a sign has at most four digits, month and day have at most two.

In a condition a full date is compared as it is. A year or a month names a period: to equal it is to
lie in it, and an order is taken against the end of the period that leaves the whole period on one
side.
-/

namespace CardSearch

namespace Calendar

def firstYear : Int := -262143

def lastYear : Int := 262142

def isLeap (year : Int) : Bool := year % 4 = 0 && (year % 100 ≠ 0 || year % 400 = 0)

/-- The length of a month, counted from one; there is no month without a number from 1 to 12. -/
def daysInMonth (year : Int) : Nat → Nat
  | 1 | 3 | 5 | 7 | 8 | 10 | 12 => 31
  | 4 | 6 | 9 | 11 => 30
  | 2 => if isLeap year then 29 else 28
  | _ => 0

def daysBeforeYear (year : Int) : Int :=
  365 * (year - 1) + (year - 1) / 4 - (year - 1) / 100 + (year - 1) / 400

def daysBeforeMonth (year : Int) : Nat → Nat
  | 0 => 0
  | month + 1 => daysBeforeMonth year month + daysInMonth year month

def dayNumber (year : Int) (month day : Nat) : Int :=
  daysBeforeYear year + daysBeforeMonth year month + day - 1 - daysBeforeYear 1970

def isDate (year : Int) (month day : Nat) : Bool :=
  firstYear ≤ year && year ≤ lastYear && 1 ≤ day && day ≤ daysInMonth year month

def dayLength : Int := 86400000

/-- The start of a day in milliseconds since the start of 1970. -/
def millis? (year : Int) (month day : Nat) : Option Int :=
  if isDate year month day then some (dayNumber year month day * dayLength) else none

def periodStart? (year : Int) (month : Option Nat) : Option Int := millis? year (month.getD 1) 1

/-- The last day of a year or of one of its months: the day before the next month starts, if the
calendar has one. -/
def periodEnd? (year : Int) (month : Option Nat) : Option Int :=
  match month.getD 12 with
  | 12 => millis? year 12 31
  | m =>
    match millis? year (m + 1) 1 with
    | none => none
    | some start =>
      if start = dayNumber firstYear 1 1 * dayLength then none else some (start - dayLength)

def skipBlanks (cs : List Char) : List Char := cs.dropWhile CharClass.blank.contains

def number? (width : Nat) (cs : List Char) : Option (Nat × List Char) :=
  let digits := (cs.takeWhile Char.isDigit).take width
  if digits.isEmpty then none else some (Text.digitsValue digits, cs.drop digits.length)

def year? : List Char → Option (Int × List Char)
  | '-' :: cs => (number? cs.length cs).map (fun (n, rest) => (-(n : Int), rest))
  | '+' :: cs => (number? cs.length cs).map (fun (n, rest) => ((n : Int), rest))
  | cs => (number? 4 cs).map (fun (n, rest) => ((n : Int), rest))

def afterHyphen? : List Char → Option (List Char)
  | '-' :: cs => some cs
  | _ => none

/-- The start, in milliseconds, of the day that the whole text writes. -/
def read? (cs : List Char) : Option Int := do
  let (year, cs) ← year? (skipBlanks cs)
  let cs ← afterHyphen? cs
  let (month, cs) ← number? 2 (skipBlanks cs)
  let cs ← afterHyphen? cs
  let (day, cs) ← number? 2 (skipBlanks cs)
  if cs.isEmpty then millis? year month day else none

end Calendar

def firstReleaseYear : Int := 100

/-- The condition that compares the release date with a date or a period; none when that is not
one of the calendar. -/
def releaseCondition? (op : CompareOp) (year : Int) (month day : Option Nat) : Option Condition :=
  let against (date : Option Int) : Option Condition :=
    date.map (fun d => .compare op .releasedAt (.date d))
  if year < firstReleaseYear || month.any (fun m => m < 1 || 12 < m) then none
  else match day, month with
    | some day, some month => against (Calendar.millis? year month day)
    | some _, none => none
    | none, month =>
      match op with
      | .eq => period month
      | .ne => (period month).map .not
      | .gt | .le => against (Calendar.periodEnd? year month)
      | .lt | .ge => against (Calendar.periodStart? year month)
where
  /-- The condition of lying in a period. -/
  period (month : Option Nat) : Option Condition := do
    let first ← Calendar.periodStart? year month
    let last ← Calendar.periodEnd? year month
    return .leaf (.range .releasedAt (.date first) true (.date last) true)

end CardSearch
