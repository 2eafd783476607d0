import CardSearch.VersionSet.Basic

/-!
# Version sets in words

Every version has one bit, 32 of them to a word. Up to 32 versions fit the bits of one word, which
needs no arena. Bits at and above the capacity are zero.
-/

namespace CardSearch

def popCount (w : UInt32) : Nat := (List.range 32).countP w.toNat.testBit

/-- The number of bits that are set in a run of words. -/
def popCounts (ws : List UInt32) : Nat := ws.foldr (fun w n => popCount w + n) 0

/-- The number of bits that are set, counted without a branch: in pairs, in fours and in eights,
which a product adds up in the highest byte. -/
def maskedCount (w : UInt32) : UInt32 :=
  let pairs := w - (w >>> (1 : UInt32) &&& (0x55555555 : UInt32))
  let fours :=
    (pairs &&& (0x33333333 : UInt32)) + (pairs >>> (2 : UInt32) &&& (0x33333333 : UInt32))
  let eights := fours + fours >>> (4 : UInt32) &&& (0x0F0F0F0F : UInt32)
  (eights * 0x01010101) >>> (24 : UInt32)

def maskedCounts (ws : List UInt32) : Nat := ws.foldr (fun w n => (maskedCount w).toNat + n) 0

def lowMask (n : Nat) : UInt32 := UInt32.ofNat ((1 <<< n) - 1)

def oneBit (i : Nat) : UInt32 := UInt32.ofNat (1 <<< i)

theorem toNat_lowMask {n : Nat} (h : n ≤ 32) : (lowMask n).toNat = (1 <<< n) - 1 := by
  have : 2 ^ n ≤ 2 ^ 32 := Nat.pow_le_pow_right (by decide) h
  rw [lowMask, UInt32.toNat_ofNat', Nat.one_shiftLeft, Nat.mod_eq_of_lt]
  have := Nat.two_pow_pos n
  omega

theorem toNat_and_lowMask {n : Nat} (h : n ≤ 32) (w : UInt32) :
    (w &&& lowMask n).toNat = w.toNat % (1 <<< n) := by
  rw [UInt32.toNat_and, toNat_lowMask h, Nat.one_shiftLeft, Nat.and_two_pow_sub_one_eq_mod]

/-- A set of numbers below a capacity of at most 32, as the bits of a word. -/
structure WordSet where
  capacity : Nat
  capacity_le : capacity ≤ 32
  bits : UInt32
  bits_lt : bits.toNat < 1 <<< capacity
  deriving DecidableEq, Repr

namespace WordSet

/-- The same capacity with the given bits; those at and above the capacity are cut off. -/
def withBits (s : WordSet) (bits : UInt32) : WordSet where
  capacity := s.capacity
  capacity_le := s.capacity_le
  bits := bits &&& lowMask s.capacity
  bits_lt := by
    rw [toNat_and_lowMask s.capacity_le, Nat.one_shiftLeft]
    exact Nat.mod_lt _ (Nat.two_pow_pos _)

def empty (capacity : Nat) (h : capacity ≤ 32) : WordSet :=
  ⟨capacity, h, 0, Nat.one_shiftLeft capacity ▸ Nat.two_pow_pos capacity⟩

def contains (s : WordSet) (value : Nat) : Bool :=
  value < s.capacity && s.bits.toNat.testBit value

def add (s : WordSet) (value : Nat) : WordSet :=
  if value < s.capacity then s.withBits (s.bits ||| oneBit value) else s

def removeOne (s : WordSet) (value : Nat) : WordSet :=
  if value < s.capacity then s.withBits (s.bits &&& ~~~ oneBit value) else s

instance : VersionSet WordSet where
  largest := 32
  slotsFor := fun _ => 0
  empty := empty
  capacity := capacity
  size := fun s => popCount s.bits
  contains := contains
  add := add
  remove := List.foldl removeOne
  clear := fun s => s.withBits 0
  fill := fun s => s.withBits (lowMask 32)
  invert := fun s => s.withBits (~~~ s.bits)
  unite := fun s t => s.withBits (s.bits ||| t.bits)
  subtract := fun s t => s.withBits (s.bits &&& ~~~ t.bits)
  toList := fun s => (List.range s.capacity).filter s.contains

end WordSet

def mostVersions : Nat := 1024

/-- How many words hold a number of bits. -/
def wordsFor (capacity : Nat) : Nat := (capacity + 31) / 32

/-- A set of numbers below a capacity, as the bits of as many words as it needs. -/
structure WordsSet where
  capacity : Nat
  words : Vector UInt32 (wordsFor capacity)
  masked : ∀ i : Fin (wordsFor capacity),
    words[i] = words[i] &&& lowMask (min 32 (capacity - 32 * i))
  deriving DecidableEq, Repr

namespace WordsSet

/-- The set with the given words; bits at and above the capacity are cut off. -/
def ofWords {capacity : Nat} (word : Fin (wordsFor capacity) → UInt32) : WordsSet where
  capacity
  words := Vector.ofFn (fun i => word i &&& lowMask (min 32 (capacity - 32 * i)))
  masked := by
    intro i
    simp [UInt32.and_assoc]

/-- The word at a place, zero beyond the last one. -/
def word (s : WordsSet) (i : Nat) : UInt32 := s.words[i]?.getD 0

def empty (capacity : Nat) : WordsSet := ofWords (fun (_ : Fin (wordsFor capacity)) => 0)

def contains (s : WordsSet) (value : Nat) : Bool :=
  value < s.capacity && (s.word (value / 32)).toNat.testBit (value % 32)

def update (s : WordsSet) (value : Nat) (change : UInt32 → UInt32 → UInt32) : WordsSet :=
  if value < s.capacity then
    ofWords (fun (i : Fin (wordsFor s.capacity)) =>
      if i = value / 32 then change s.words[i] (oneBit (value % 32)) else s.words[i])
  else s

def add (s : WordsSet) (value : Nat) : WordsSet := s.update value (· ||| ·)

def removeOne (s : WordsSet) (value : Nat) : WordsSet := s.update value (· &&& ~~~ ·)

def map (s : WordsSet) (f : Nat → UInt32 → UInt32) : WordsSet :=
  ofWords (fun (i : Fin (wordsFor s.capacity)) => f i s.words[i])

instance : VersionSet WordsSet where
  largest := mostVersions
  slotsFor := wordsFor
  empty := fun capacity _ => empty capacity
  capacity := capacity
  size := fun s => popCounts s.words.toList
  contains := contains
  add := add
  remove := List.foldl removeOne
  clear := fun s => s.map (fun _ _ => 0)
  fill := fun s => s.map (fun _ _ => lowMask 32)
  invert := fun s => s.map (fun _ w => ~~~ w)
  unite := fun s t => s.map (fun i w => w ||| t.word i)
  subtract := fun s t => s.map (fun i w => w &&& ~~~ t.word i)
  toList := fun s => (List.range s.capacity).filter s.contains

/-- How many words a number of bytes holds. -/
def arenaSlots (bytes : Nat) : Nat := bytes / 4

end WordsSet

end CardSearch
