import CardSearch.Json.Basic
import CardSearch.Text.Characters

/-!
# Numbers of a JSON text

An integer without a point or an exponent that fits 64 bits is kept as it is; anything else becomes
a double-precision number. Its digits are gathered in 64 bits as far as they go, and the result is
multiplied or divided by a power of ten that is itself rounded, so two roundings are possible. A
number too large to be finite is refused.
-/

namespace CardSearch

/-- A number as written: its sign, the digits before the point, those after it and the exponent
with its sign. -/
structure NumberForm where
  negative : Bool := false
  whole : List Char
  fraction : Option (List Char) := none
  exponent : Option (Bool × List Char) := none
  deriving DecidableEq, Repr

namespace NumberForm

def digitValue (d : Char) : Nat := d.toNat - '0'.toNat

/-- The digits that fit 64 bits when they are appended to a number, as a number, and how many of
them there are. -/
def gather (n : Nat) : List Char → Nat × Nat
  | [] => (n, 0)
  | d :: ds =>
    let next := 10 * n + digitValue d
    if next < UInt64.size then
      let (value, taken) := gather next ds
      (value, taken + 1)
    else (n, 0)

/-- The largest power of ten that is multiplied or divided by at once. -/
def largestPower : Int := 308

/-- A number times a power of ten; none if it is too large. -/
def scaled? (x : Binary64) (power : Int) : Option Binary64 :=
  if 0 ≤ power then
    if power ≤ largestPower then
      let y := x.scaleUp (.ofInt (Nat.pow 10 power.toNat))
      if y.isSpecial then none else some y
    else if x.numerator = 0 then some x else none
  else if -largestPower ≤ power then some (x.scaleDown (.ofInt (Nat.pow 10 (-power).toNat)))
  else if x.numerator = 0 then some x
  else scaled? (x.scaleDown (.ofInt (Nat.pow 10 largestPower.toNat))) (power + largestPower)
termination_by (-power).toNat
decreasing_by simp only [largestPower] at *; omega

def withSign (negative : Bool) (x : Binary64) : Binary64 := if negative then x.negate else x

/-- The value of the digits and the power of ten that they are to be multiplied by, apart from the
exponent that is written. -/
def significand (form : NumberForm) : Nat × Int :=
  let (whole, taken) := gather 0 form.whole
  let skipped : Int := (form.whole.length - taken : Nat)
  match form.fraction with
  | none => (whole, skipped)
  | some fraction =>
    let (value, used) := gather whole fraction
    (value, skipped - used)

def double? (form : NumberForm) : Option Binary64 :=
  let (value, power) := form.significand
  let size := match form.exponent with
    | none => scaled? (.ofInt value) power
    | some (negative, digits) =>
      let exponent := Text.digitsValue digits
      if exponent ≤ Int32.maxValue.toInt then
        scaled? (.ofInt value) (if negative then power - exponent else power + exponent)
      else if value ≠ 0 ∧ ¬ negative then none
      else some .zero
  size.map (withSign form.negative)

def value? (form : NumberForm) : Option JsonNumber :=
  let whole := Text.digitsValue form.whole
  if form.fraction = none ∧ form.exponent = none then
    if ¬ form.negative ∧ whole < UInt64.size then some (.natural (UInt64.ofNat whole))
    else if form.negative ∧ 0 < whole ∧ whole ≤ 1 <<< 63 then some (.negative (-whole))
    else form.double?.map .double
  else form.double?.map .double

/-- The digits at the start of a text, at least one, and the rest. -/
def digits? (cs : List Char) : Option (List Char × List Char) :=
  match cs.takeWhile Char.isDigit with
  | [] => none
  | d :: ds => some (d :: ds, cs.dropWhile Char.isDigit)

/-- The digits before the point at the start of a text: a zero alone, or digits that start with
another; and the rest. -/
def whole? : List Char → Option (List Char × List Char)
  | '0' :: cs => some (['0'], cs)
  | cs => digits? cs

def withExponent? (form : NumberForm) : List Char → Option (NumberForm × List Char)
  | c :: cs =>
    if c = 'e' ∨ c = 'E' then
      let (negative, cs) := match cs with
        | '+' :: cs => (false, cs)
        | '-' :: cs => (true, cs)
        | cs => (false, cs)
      (digits? cs).map fun (digits, rest) =>
        ({ form with exponent := some (negative, digits) }, rest)
    else some (form, c :: cs)
  | [] => some (form, [])

def scan? (cs : List Char) : Option (NumberForm × List Char) := do
  let (negative, cs) := match cs with
    | '-' :: cs => (true, cs)
    | cs => (false, cs)
  let (whole, cs) ← whole? cs
  match cs with
  | '.' :: cs =>
    let (fraction, cs) ← digits? cs
    withExponent? { negative, whole, fraction := some fraction } cs
  | cs => withExponent? { negative, whole } cs

end NumberForm

end CardSearch
