import CardSearch.VersionSet.Basic
import CardSearch.VersionSet.Shared
import CardSearch.VersionSet.Sorted

/-!
# Version sets in a range of slots

The members of a set stand in ascending order in a range of the memory of an arena that has room
for the largest set. Sets are put together and thinned out in place.
-/

namespace CardSearch

/-- A set of numbers below a capacity whose members stand in memory in ascending order. -/
structure SlotRange where
  offset : Nat
  capacity : Nat
  size : Nat
  deriving DecidableEq, Repr

namespace SlotRange

/-- How many values of an ascending list come before a value: the place where it stands if it is in
the list, and where it would be put otherwise. -/
def place (vs : List UInt16) (value : UInt16) : Nat := vs.countP (· < value)

def found (vs : List UInt16) (value : UInt16) : Bool := vs[place vs value]? == some value

def members (m : Memory UInt16) (s : SlotRange) : List UInt16 := m.window s.offset s.size

def create (m : Memory UInt16) (capacity : Nat) : Except SetError (SlotRange × Memory UInt16) :=
  if mostVersions < capacity then .error (.capacityExceeded capacity mostVersions)
  else do
    let (offset, m) ← m.alloc mostVersions
    return (⟨offset, capacity, 0⟩, m)

/-- The member at a place, counted from the least one. -/
def at? (m : Memory UInt16) (s : SlotRange) (i : Nat) : Option Nat :=
  (members m s)[i]?.map UInt16.toNat

/-- Takes the member at a place out; those after it move up. -/
def eraseAt (m : Memory UInt16) (s : SlotRange) (i : Nat) : SlotRange × Memory UInt16 :=
  ({ s with size := s.size - 1 },
    m.move (s.offset + i + 1) (s.offset + i) (s.size - (i + 1)))

/-- Puts all values below a number in place of the members, which must not exceed the capacity. -/
def fillTo (m : Memory UInt16) (s : SlotRange) (count : Nat) :
    Except SetError (SlotRange × Memory UInt16) :=
  if s.capacity < count then .error (.capacityExceeded count s.capacity)
  else .ok ({ s with size := count },
    m.writeAll s.offset ((List.range count).map UInt16.ofNat))

/-- Makes a value below the capacity a member; those above it move down. -/
def add (m : Memory UInt16) (s : SlotRange) (value : Nat) : SlotRange × Memory UInt16 :=
  let slot := UInt16.ofNat value
  if found (members m s) slot then (s, m)
  else
    let start := s.offset + place (members m s) slot
    ({ s with size := s.size + 1 },
      (m.move start (start + 1) (s.offset + s.size - start)).write start slot)

def remove (m : Memory UInt16) (s : SlotRange) (value : Nat) : SlotRange × Memory UInt16 :=
  let slot := UInt16.ofNat value
  if found (members m s) slot then eraseAt m s (place (members m s) slot) else (s, m)

/-- Writes those of the values in a list that are not the next one of an ascending list, from a
place on, and counts them. -/
def writeAbsent (m : Memory UInt16) (offset : Nat) (present : List UInt16) (size : Nat) :
    List Nat → Nat × Memory UInt16
  | [] => (size, m)
  | v :: vs =>
    if present.head?.map UInt16.toNat = some v then writeAbsent m offset present.tail size vs
    else writeAbsent (m.write (offset + size) (UInt16.ofNat v)) offset present (size + 1) vs

/-- How many values stand in two ascending lists together. -/
def mergedSize : List UInt16 → List UInt16 → Nat
  | [], bs => bs.length
  | as, [] => as.length
  | a :: as, b :: bs =>
    if a < b then mergedSize as (b :: bs) + 1
    else if b < a then mergedSize (a :: as) bs + 1
    else mergedSize as bs + 1
termination_by as bs => as.length + bs.length

/-- Merges the first `j` slots from one place with the first `i` from another, and writes them from
the back to the first `k` slots of the latter. -/
def mergeBack (m : Memory UInt16) (offset other i j k : Nat) : Memory UInt16 :=
  if j = 0 then m
  else
    let b := m.read (other + j - 1)
    let a := m.read (offset + i - 1)
    if 0 < i ∧ b ≤ a then
      mergeBack (m.write (offset + k - 1) a) offset other (i - 1) (if a = b then j - 1 else j)
        (k - 1)
    else mergeBack (m.write (offset + k - 1) b) offset other i (j - 1) (k - 1)
termination_by i + j
decreasing_by
  · split <;> omega
  · omega

def skipBelow (m : Memory UInt16) (t : SlotRange) (value : UInt16) (j : Nat) : Nat :=
  if j < t.size ∧ m.read (t.offset + j) < value then skipBelow m t value (j + 1) else j
termination_by t.size - j

/-- Goes through the members from the `read`th on and writes those that are not members of another
set behind the first `write` ones. -/
def subtractFrom (m : Memory UInt16) (s t : SlotRange) (read write j : Nat) :
    Nat × Memory UInt16 :=
  if read < s.size then
    let value := m.read (s.offset + read)
    let j := skipBelow m t value j
    if j < t.size ∧ m.read (t.offset + j) = value then subtractFrom m s t (read + 1) write j
    else subtractFrom (m.write (s.offset + write) value) s t (read + 1) (write + 1) j
  else (write, m)
termination_by s.size - read

/-- Puts the members of the first set in place of those of the second. -/
def copyOnto (m : Memory UInt16) (s t : SlotRange) : SlotRange × Memory UInt16 :=
  ({ t with size := s.size }, m.move s.offset t.offset s.size)

/-- Asks about the members from the `read`th on and writes those that stay behind the first `write`
ones, up to the first failure, whose member stays. Says how many are asked and written then. -/
def retainFrom {ε : Type} (keep : Nat → Except ε Bool) (m : Memory UInt16) (s : SlotRange)
    (read write : Nat) : Memory UInt16 × Nat × Nat × Option ε :=
  if read < s.size then
    let value := m.read (s.offset + read)
    match keep value.toNat with
    | .ok true => retainFrom keep (m.write (s.offset + write) value) s (read + 1) (write + 1)
    | .ok false => retainFrom keep m s (read + 1) write
    | .error e => (m.write (s.offset + write) value, read + 1, write + 1, some e)
  else (m, read, write, none)
termination_by s.size - read

/-- Asks about the members in turn; after a failure those that are not asked about move up. -/
def retain {ε : Type} (keep : Nat → Except ε Bool) (m : Memory UInt16) (s : SlotRange) :
    (SlotRange × Memory UInt16) × Option ε :=
  let (m, read, write, failure) := retainFrom keep m s 0 0
  (({ s with size := write + (s.size - read) },
    m.move (s.offset + read) (s.offset + write) (s.size - read)), failure)

instance : SharedSet SlotRange (Memory UInt16) where
  pushesInOrder := true
  arena := Memory.arena
  create := create
  capacity := capacity
  size := size
  contains m s value := value < s.capacity && found (members m s) (UInt16.ofNat value)
  add := add
  push m s value :=
    ({ s with size := s.size + 1 }, m.write (s.offset + s.size) (UInt16.ofNat value))
  remove := remove
  clear m s := ({ s with size := 0 }, m)
  fill m s := (fillTo m s s.capacity).toOption.getD (s, m)
  invert m s :=
    let (size, m) := writeAbsent m s.offset (members m s) 0 (List.range s.capacity)
    ({ s with size := size }, m)
  unite m s t :=
    let merged := mergedSize (members m s) (members m t)
    ({ s with size := merged }, mergeBack m s.offset t.offset s.size t.size merged)
  subtract m s t :=
    let (size, m) := subtractFrom m s t 0 0 0
    ({ s with size := size }, m)
  copy m s := do
    let (t, m) ← create m s.capacity
    return copyOnto m s t
  copyOnto := copyOnto
  first? m s := (members m s).head?.map UInt16.toNat
  toList m s := (members m s).map UInt16.toNat
  retain := retain

end SlotRange

end CardSearch
