import CardSearch.VersionSet.Shared
import CardSearch.VersionSet.Words

/-!
# Version sets without memory

Up to 32 versions fit one word that the handle holds itself. The number of members is counted as
they come and go.
-/

namespace CardSearch

def hasBit (w : UInt32) (i : Nat) : Bool := w &&& oneBit i != 0

/-- The mask of the bits that are in use in the last word for a capacity. -/
def tailMask (capacity : Nat) : UInt32 :=
  if capacity % 32 = 0 then lowMask 32 else lowMask (capacity % 32)

/-- The place of the lowest bit that is set, 32 if there is none. -/
def trailingZeros (w : UInt32) : Nat := w.toBitVec.ctz.toNat

/-- A set of numbers below a capacity of at most 32, with the number of its members. -/
structure InlineSet where
  bits : UInt32
  capacity : Nat
  size : Nat
  deriving DecidableEq, Repr

namespace InlineSet

def fullMask (s : InlineSet) : UInt32 := if s.capacity = 0 then 0 else tailMask s.capacity

def create (capacity : Nat) : Except SetError InlineSet :=
  if 32 < capacity then .error (.capacityExceeded capacity 32) else .ok ⟨0, capacity, 0⟩

/-- Makes a value below the capacity a member. -/
def add (s : InlineSet) (value : Nat) : InlineSet :=
  let bits := s.bits ||| oneBit value
  if bits = s.bits then s else { s with bits := bits, size := s.size + 1 }

def remove (s : InlineSet) (value : Nat) : InlineSet :=
  let bits := s.bits &&& ~~~ oneBit value
  if bits = s.bits then s else { s with bits := bits, size := s.size - 1 }

def recounted (s : InlineSet) (bits : UInt32) : InlineSet :=
  { s with bits := bits, size := (maskedCount bits).toNat }

/-- Asks about the values of a list in turn that are members. -/
def retainAmong {ε : Type} (keep : Nat → Except ε Bool) (s : InlineSet) :
    List Nat → InlineSet × Option ε
  | [] => (s, none)
  | v :: vs =>
    if hasBit s.bits v then
      match keep v with
      | .error e => (s, some e)
      | .ok true => s.retainAmong keep vs
      | .ok false =>
        { s with bits := s.bits &&& ~~~ oneBit v, size := s.size - 1 }.retainAmong keep vs
    else s.retainAmong keep vs

instance : SharedSet InlineSet Unit where
  arena _ := { slots := 0 }
  create _ capacity := (create capacity).map (·, ())
  capacity := capacity
  size := size
  contains _ s value := value < s.capacity && hasBit s.bits value
  add _ s value := (s.add value, ())
  push _ s value := (s.add value, ())
  remove _ s value := (s.remove value, ())
  clear _ s := ({ s with bits := 0, size := 0 }, ())
  fill _ s := ({ s with bits := s.fullMask, size := s.capacity }, ())
  invert _ s := ({ s with bits := ~~~ s.bits &&& s.fullMask, size := s.capacity - s.size }, ())
  unite _ s t := (s.recounted (s.bits ||| t.bits), ())
  subtract _ s t := (s.recounted (s.bits &&& ~~~ t.bits), ())
  copy _ s := .ok (s, ())
  copyOnto _ s t := ({ t with bits := s.bits, size := s.size }, ())
  first? _ s := if s.bits = 0 then none else some (trailingZeros s.bits)
  toList _ s := (List.range s.capacity).filter (hasBit s.bits)
  retain keep _ s :=
    let kept := s.retainAmong keep (List.range s.capacity)
    ((kept.1, ()), kept.2)

end InlineSet

end CardSearch
