import CardSearch.VersionSet.Inline
import CardSearch.VersionSet.Basic
import CardSearch.VersionSet.Words

/-!
# Version sets in a range of words

The words of a set are a range of the memory of an arena, and the handle says where they start. The
number of members is counted as they come and go, and anew where two sets are put together.
-/

namespace CardSearch

def dropLowest (w : UInt32) : UInt32 := w &&& (w - 1)

theorem toNat_sub_one {w : UInt32} (h : w ≠ 0) : (w - 1).toNat = w.toNat - 1 := by
  have hpos : w.toNat ≠ 0 := fun hzero => h (UInt32.toNat_inj.1 hzero)
  rw [UInt32.toNat_sub_of_le w 1 (UInt32.le_iff_toNat_le.2 (Nat.pos_of_ne_zero hpos))]
  rfl

theorem toNat_dropLowest_lt {w : UInt32} (h : w ≠ 0) : (dropLowest w).toNat < w.toNat := by
  have hpos : w.toNat ≠ 0 := fun hzero => h (UInt32.toNat_inj.1 hzero)
  have hand : (dropLowest w).toNat ≤ (w - 1).toNat := by
    rw [dropLowest, UInt32.toNat_and]
    exact Nat.and_le_right
  have := toNat_sub_one h
  omega

/-- The places of the bits of a word that are set, found from the lowest on. -/
def ones (w : UInt32) : List Nat :=
  if _h : w = 0 then [] else trailingZeros w :: ones (dropLowest w)
termination_by w.toNat
decreasing_by exact toNat_dropLowest_lt ‹_›

/-- A set of numbers below a capacity whose words stand in memory. -/
structure WordRange where
  offset : Nat
  length : Nat
  capacity : Nat
  size : Nat
  deriving DecidableEq, Repr

namespace WordRange

def place (s : WordRange) (value : Nat) : Nat := s.offset + value / 32

def create (m : Memory UInt32) (capacity : Nat) : Except SetError (WordRange × Memory UInt32) :=
  if mostVersions < capacity then .error (.capacityExceeded capacity mostVersions)
  else do
    let (offset, m) ← m.alloc (wordsFor capacity)
    return (⟨offset, wordsFor capacity, capacity, 0⟩,
      m.writeAll offset (.replicate (wordsFor capacity) 0))

/-- Makes a value below the capacity a member. -/
def add (m : Memory UInt32) (s : WordRange) (value : Nat) : WordRange × Memory UInt32 :=
  let word := m.read (s.place value)
  if hasBit word (value % 32) then (s, m)
  else ({ s with size := s.size + 1 }, m.write (s.place value) (word ||| oneBit (value % 32)))

def remove (m : Memory UInt32) (s : WordRange) (value : Nat) : WordRange × Memory UInt32 :=
  let word := m.read (s.place value)
  if hasBit word (value % 32) then
    ({ s with size := s.size - 1 }, m.write (s.place value) (word &&& ~~~ oneBit (value % 32)))
  else (s, m)

/-- Cuts off the bits at and above the capacity in the last word. -/
def maskTail (m : Memory UInt32) (s : WordRange) : Memory UInt32 :=
  if 0 < s.length then
    let last := s.offset + s.length - 1
    m.write last (m.read last &&& tailMask s.capacity)
  else m

def mapWords (m : Memory UInt32) (s : WordRange) (word : Memory UInt32 → Nat → UInt32) :
    Memory UInt32 :=
  (List.range s.length).foldl (fun m i => m.write (s.offset + i) (word m i)) m

def recounted (m : Memory UInt32) (s : WordRange) : WordRange :=
  { s with size := maskedCounts (m.window s.offset s.length) }

/-- Puts the members of the first set in place of those of the second. -/
def copyOnto (m : Memory UInt32) (s t : WordRange) : WordRange × Memory UInt32 :=
  ({ t with size := s.size }, m.move s.offset t.offset s.length)

/-- Asks in turn about the values whose bits are pending in a word that starts at a value, and
clears the bits of those for which the answer is no. Comes with the number of members then. -/
def retainOnes {ε : Type} (keep : Nat → Except ε Bool) (start : Nat) (pending word : UInt32)
    (size : Nat) : UInt32 × Nat × Option ε :=
  if _h : pending = 0 then (word, size, none)
  else
    let i := trailingZeros pending
    match keep (start + i) with
    | .ok true => retainOnes keep start (dropLowest pending) word size
    | .ok false =>
      retainOnes keep start (dropLowest pending) (word &&& ~~~ oneBit i) (size - 1)
    | .error e => (word, size, some e)
termination_by pending.toNat
decreasing_by all_goals exact toNat_dropLowest_lt ‹_›

/-- Asks about the members in the words at the given places, up to the first failure. -/
def retainWords {ε : Type} (keep : Nat → Except ε Bool) (m : Memory UInt32) (s : WordRange) :
    List Nat → (WordRange × Memory UInt32) × Option ε
  | [] => ((s, m), none)
  | i :: is =>
    let word := m.read (s.offset + i)
    if word = 0 then retainWords keep m s is
    else
      let (word, size, failure) := retainOnes keep (32 * i) word word s.size
      let m := m.write (s.offset + i) word
      let s := { s with size := size }
      match failure with
      | some e => ((s, m), some e)
      | none => retainWords keep m s is

instance : SharedSet WordRange (Memory UInt32) where
  arena := Memory.arena
  create := create
  capacity := capacity
  size := size
  contains m s value := value < s.capacity && hasBit (m.read (s.place value)) (value % 32)
  add := add
  push := add
  remove := remove
  clear m s := ({ s with size := 0 }, m.writeAll s.offset (.replicate s.length 0))
  fill m s :=
    let m := m.writeAll s.offset (.replicate s.length (lowMask 32))
    ({ s with size := s.capacity }, maskTail m s)
  invert m s :=
    let m := mapWords m s (fun m i => ~~~ m.read (s.offset + i))
    ({ s with size := s.capacity - s.size }, maskTail m s)
  unite m s t :=
    let m := mapWords m s (fun m i => m.read (s.offset + i) ||| m.read (t.offset + i))
    (recounted m s, m)
  subtract m s t :=
    let m := mapWords m s (fun m i => m.read (s.offset + i) &&& ~~~ m.read (t.offset + i))
    (recounted m s, m)
  copy m s := do
    let (t, m) ← create m s.capacity
    return copyOnto m s t
  copyOnto := copyOnto
  first? m s :=
    if s.size = 0 then none
    else ((List.range s.length).find? (fun i => m.read (s.offset + i) != 0)).map
      (fun i => 32 * i + trailingZeros (m.read (s.offset + i)))
  toList m s :=
    (List.range s.length).flatMap (fun i => (ones (m.read (s.offset + i))).map (32 * i + ·))
  retain keep m s := retainWords keep m s (List.range s.length)

end WordRange

end CardSearch
