/-!
# Double-precision numbers

A number of the binary64 format of IEEE 754, kept as its 64 bits. A finite one is an integer of
53 bits times a power of two; operations are carried out exactly on such pairs and rounded once,
to the nearest number and from halfway to the even one.

A finite number is written with the fewest decimal digits that are nearer to it than to any
other number. Of two decimals with that many digits the nearer one is taken.
-/

namespace CardSearch

/-- A double-precision number, by its bits. -/
structure Binary64 where
  bits : UInt64
  deriving DecidableEq, Repr

namespace Binary64

def isNegative (x : Binary64) : Bool := 1 <<< 63 ≤ x.bits.toNat

def exponentField (x : Binary64) : Nat := (x.bits.toNat >>> 52) % 2048

def fraction (x : Binary64) : Nat := x.bits.toNat % (1 <<< 52)

def isSpecial (x : Binary64) : Bool := x.exponentField == 2047

def isNaN (x : Binary64) : Bool := x.isSpecial && x.fraction != 0

def mantissa (x : Binary64) : Nat :=
  if x.exponentField = 0 then x.fraction else (1 <<< 52) + x.fraction

/-- The power of two of a finite number, raised by 1074 so that none is negative. -/
def scale (x : Binary64) : Nat := x.exponentField - 1

/-- The size of a finite number as a fraction, over `2 ^ 1074`. -/
def numerator (x : Binary64) : Nat := x.mantissa <<< x.scale

def denominator : Nat := 1 <<< 1074

/-- The bits of an infinite number without its sign. -/
def infinityBits : Nat := 2047 <<< 52

def ofSignBits (negative : Bool) (bits : Nat) : Binary64 :=
  ⟨UInt64.ofNat (bits + if negative then 1 <<< 63 else 0)⟩

/-- A quotient to the nearest integer, from halfway to the even one. -/
def roundDiv (num den : Nat) : Nat :=
  let q := num / den
  let r := num % den
  if 2 * r > den || (2 * r == den && q % 2 == 1) then q + 1 else q

/-- The number of the given sign nearest to a fraction; beyond the largest one it is infinite.
The fraction is brought over the common denominator, and `shift` is the scale at which its
integer has 53 bits, or the smallest scale there is. -/
def ofFraction (negative : Bool) (num den : Nat) : Binary64 :=
  let num := num * denominator
  let estimate := Nat.log2 num - Nat.log2 den - 52
  let shift := if num < den <<< (52 + estimate) then estimate - 1 else estimate
  ofSignBits negative (min infinityBits ((shift <<< 52) + roundDiv num (den <<< shift)))

def ofInt (n : Int) : Binary64 := ofFraction (n < 0) n.natAbs 1

def zero : Binary64 := ⟨0⟩

def signed (x : Binary64) (n : Nat) : Int := if x.isNegative then -n else n

/-- A number against an integer; what is no number has no order. -/
def compareInt? (x : Binary64) (n : Int) : Option Ordering :=
  if x.isNaN then none
  else if x.isSpecial then some (if x.isNegative then .lt else .gt)
  else some (compare (x.signed x.numerator) (n * denominator))

def isEven (x : Binary64) : Bool := !x.isSpecial && x.numerator % (2 * denominator) == 0

/-- The number without its sign, multiplied by a positive finite one. -/
def scaleUp (x factor : Binary64) : Binary64 :=
  ofFraction x.isNegative (x.numerator * factor.numerator) (denominator * denominator)

/-- The number divided by a positive finite one. -/
def scaleDown (x divisor : Binary64) : Binary64 :=
  ofFraction x.isNegative x.numerator divisor.numerator

def negate (x : Binary64) : Binary64 := ofSignBits (!x.isNegative) (x.bits.toNat % (1 <<< 63))

end Binary64

structure Decimal where
  digits : Nat
  exponent : Int
  deriving DecidableEq, Repr

/-- Which of two decimals equally far away is taken. -/
inductive TieRule
  | up
  | even
  deriving DecidableEq, Repr

namespace Binary64

/-- Twice the distance to the midpoint above, over four times the common denominator. -/
def gapAbove (x : Binary64) : Nat := 2 <<< x.scale

/-- The distance to the midpoint below: half of that above at a power of two. -/
def gapBelow (x : Binary64) : Nat :=
  if x.fraction = 0 ∧ 1 < x.exponentField then 1 <<< x.scale else 2 <<< x.scale

/-- Whether the fraction `num / den` lies nearer to the number than to any other, with `den` given
as a multiple of the common denominator. The midpoints belong to the number whose integer is
even. -/
def claims (x : Binary64) (num den : Nat) : Bool :=
  let lower := (4 * x.numerator - x.gapBelow) * den
  let upper := (4 * x.numerator + x.gapAbove) * den
  let value := 4 * num * denominator
  if x.mantissa % 2 = 0 then lower ≤ value && value ≤ upper else lower < value && value < upper

/-- The power of ten just above a finite number other than zero. -/
def decimalPlace (x : Binary64) : Int :=
  ((Nat.toDigits 10 (x.numerator * Nat.pow 10 400 / denominator)).length : Int) - 400

def decimalOf? (tie : TieRule) (x : Binary64) (n : Nat) : Option Decimal :=
  let exponent := x.decimalPlace - n
  let up := Nat.pow 10 (-exponent).toNat
  let unit := Nat.pow 10 exponent.toNat
  let scaled := x.numerator * up
  let below := scaled / (denominator * unit)
  let remainder := 2 * (scaled % (denominator * unit))
  let takeAbove := match compare remainder (denominator * unit) with
    | .lt => false
    | .gt => true
    | .eq => match tie with
      | .up => true
      | .even => below % 2 == 1
  match x.claims (below * unit) up, x.claims ((below + 1) * unit) up with
  | true, true => some ⟨if takeAbove then below + 1 else below, exponent⟩
  | true, false => some ⟨below, exponent⟩
  | false, true => some ⟨below + 1, exponent⟩
  | false, false => none

/-- The shortest decimal that stands for a finite number. Seventeen digits are always enough. -/
def shortest (tie : TieRule) (x : Binary64) : Decimal :=
  if x.numerator = 0 then ⟨0, 0⟩
  else ((List.range' 1 17).findSome? (x.decimalOf? tie)).getD ⟨0, 0⟩

end Binary64

/-- How numbers are laid out: which of two equally near decimals is taken, and between which
powers of ten the first digit must stand for the number to be written without an exponent. -/
structure NumberLayout where
  tie : TieRule
  leastPower : Int
  greatestPower : Int

namespace NumberLayout

/-- The digits of a decimal without the zeros at its end, and the power of ten of the first. -/
def significant (d : Decimal) : List Char × Int :=
  let digits := Nat.toDigits 10 d.digits
  let kept := (digits.reverse.dropWhile (· == '0')).reverse
  (if kept.isEmpty then ['0'] else kept, d.exponent + digits.length - 1)

/-- Digits with a point after the power of ten zero, with at least one digit on either side. -/
def positional (digits : List Char) (power : Int) : List Char :=
  if power < 0 then
    ['0', '.'] ++ List.replicate (-power - 1).toNat '0' ++ digits
  else
    let whole := power.toNat + 1
    let fraction := digits.drop whole
    digits.take whole ++ List.replicate (whole - digits.length) '0' ++ ['.'] ++
      if fraction.isEmpty then ['0'] else fraction

/-- Digits with a point after the first, if there are more, and the power of ten. -/
def scientific (digits : List Char) (power : Int) : List Char :=
  let mantissa := match digits with
    | d :: e :: es => d :: '.' :: e :: es
    | ds => ds
  mantissa ++ 'e' :: (toString power).toList

def text (layout : NumberLayout) (x : Binary64) : String :=
  if x.isNaN then "NaN"
  else
    let sign := if x.isNegative then "-" else ""
    if x.isSpecial then sign ++ "inf"
    else
      let (digits, power) := significant (x.shortest layout.tie)
      let laidOut :=
        if layout.leastPower ≤ power ∧ power ≤ layout.greatestPower then positional digits power
        else scientific digits power
      sign ++ String.ofList laidOut

end NumberLayout

end CardSearch
