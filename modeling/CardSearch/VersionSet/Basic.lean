/-!
# Sets of version numbers

A version set holds numbers below its capacity. The operations that can fail check their
arguments first and leave the set as it was when they do.

Sets are made from an arena that holds a fixed number of slots. A set keeps its slots until the
arena is reset as a whole; asking for more than is left fails and takes nothing. In memory the slots
hold cells, which are handed out one after the other; a range of them holds whatever was written to it
last, also before it was handed out.
-/

namespace CardSearch

/-- Why an operation on version sets fails. -/
inductive SetError
  | outOfBounds (value capacity : Nat)
  | capacityMismatch (first second : Nat)
  | capacityExceeded (capacity largest : Nat)
  | arenaExhausted (requested available : Nat)
  deriving DecidableEq, Repr

namespace SetError

def code : SetError → String
  | outOfBounds _ _ => "CQ_SET_OUT_OF_BOUNDS"
  | capacityMismatch _ _ => "CQ_SET_CAPACITY_MISMATCH"
  | capacityExceeded _ _ => "CQ_SET_CAPACITY_EXCEEDED"
  | arenaExhausted _ _ => "CQ_SET_ARENA_EXHAUSTED"

def reason : SetError → String
  | outOfBounds value capacity =>
    "Value " ++ toString value ++ " out of bounds for capacity " ++ toString capacity ++ "."
  | capacityMismatch first second =>
    "Capacities " ++ toString first ++ " and " ++ toString second ++ " don't match."
  | capacityExceeded capacity largest =>
    "Capacity " ++ toString capacity ++ " greater than maximum capacity of " ++
      toString largest ++ "."
  | arenaExhausted requested available =>
    "Arena exhausted: requested " ++ toString requested ++ " slots, " ++ toString available ++
      " available."

def message (e : SetError) : String := "[ERROR] " ++ e.code ++ ": " ++ e.reason

end SetError

/-- A fixed number of slots, of which some are taken. Each reset starts a new generation. -/
structure Arena where
  slots : Nat
  used : Nat := 0
  generation : UInt32 := 0
  deriving DecidableEq, Repr, Inhabited

namespace Arena

def available (arena : Arena) : Nat := arena.slots - arena.used

def take (arena : Arena) (count : Nat) : Except SetError Arena :=
  if arena.available < count then .error (.arenaExhausted count arena.available)
  else .ok { arena with used := arena.used + count }

def reset (arena : Arena) : Arena :=
  { arena with used := 0, generation := arena.generation + 1 }

end Arena

/-- The cells of an arena, of which those below `used` are handed out. -/
structure Memory (α : Type) where
  cells : Array α
  used : Nat := 0
  generation : UInt32 := 0

namespace Memory

variable {α : Type} [Inhabited α]

/-- How many slots there are and how many of them are taken. -/
def arena (m : Memory α) : Arena := ⟨m.cells.size, m.used, m.generation⟩

def new (slots : Nat) : Memory α := { cells := .replicate slots default }

def read (m : Memory α) (i : Nat) : α := m.cells[i]?.getD default

def write (m : Memory α) (i : Nat) (a : α) : Memory α :=
  { m with cells := m.cells.setIfInBounds i a }

def window (m : Memory α) (offset count : Nat) : List α :=
  (List.range count).map (fun i => m.read (offset + i))

/-- Puts cells at a place and those after it. -/
def writeAll (m : Memory α) (offset : Nat) : List α → Memory α
  | [] => m
  | a :: as => (m.write offset a).writeAll (offset + 1) as

/-- Puts the cells of a range, as they stand, at another place, which may overlap the range. -/
def move (m : Memory α) (source target count : Nat) : Memory α :=
  m.writeAll target (m.window source count)

/-- Hands out a number of cells; the place of the first one. -/
def alloc (m : Memory α) (count : Nat) : Except SetError (Nat × Memory α) := do
  let arena ← m.arena.take count
  return (m.used, { m with used := arena.used })

def reset (m : Memory α) : Memory α :=
  { m with used := 0, generation := m.generation + 1 }

end Memory

/-- A way to hold sets of numbers below a capacity. The operations on two sets are meant for sets
of one capacity; those on a value ignore it beyond the capacity. -/
class VersionSet (σ : Type) where
  /-- The largest capacity of a set. -/
  largest : Nat
  /-- How many slots of an arena a set of the given capacity takes. -/
  slotsFor : Nat → Nat
  /-- The empty set of a capacity. -/
  empty : (capacity : Nat) → capacity ≤ largest → σ
  /-- The number below which all members lie. -/
  capacity : σ → Nat
  /-- The number of members. -/
  size : σ → Nat
  /-- Whether a value is a member. -/
  contains : σ → Nat → Bool
  /-- The set with one more member. -/
  add : σ → Nat → σ
  /-- The set without the values of an ascending list. -/
  remove : σ → List Nat → σ
  /-- The empty set of the same capacity. -/
  clear : σ → σ
  /-- The set of all values below the capacity. -/
  fill : σ → σ
  /-- The values below the capacity that are not members. -/
  invert : σ → σ
  /-- The members of either set. -/
  unite : σ → σ → σ
  /-- The members of the first set that are not in the second. -/
  subtract : σ → σ → σ
  /-- The members in ascending order. -/
  toList : σ → List Nat

/-- Asks a question of the values of a list in turn, up to the first failure. The list of values
for which the answer was no comes with the failure. -/
def rejected {ε : Type} (keep : Nat → Except ε Bool) : List Nat → List Nat × Option ε
  | [] => ([], none)
  | v :: vs =>
    match keep v with
    | .error e => ([], some e)
    | .ok true => rejected keep vs
    | .ok false =>
      let rest := rejected keep vs
      (v :: rest.1, rest.2)

namespace VersionSet

variable {σ : Type} [VersionSet σ]

def first? (s : σ) : Option Nat := (toList s).head?

def isEmpty (s : σ) : Bool := size s == 0

def create (arena : Arena) (capacity : Nat) : Except SetError (σ × Arena) :=
  if h : capacity ≤ largest σ then do
    let arena ← arena.take (slotsFor σ capacity)
    return (empty capacity h, arena)
  else .error (.capacityExceeded capacity (largest σ))

def copy (arena : Arena) (s : σ) : Except SetError (σ × Arena) := do
  let arena ← arena.take (slotsFor σ (capacity s))
  return (s, arena)

def checkCapacity (s t : σ) : Except SetError Unit :=
  if capacity s = capacity t then .ok ()
  else .error (.capacityMismatch (capacity s) (capacity t))

def union (s t : σ) : Except SetError σ := do
  checkCapacity s t
  return unite s t

def diff (s t : σ) : Except SetError σ := do
  checkCapacity s t
  return subtract s t

/-- Drops the members for which the answer is no, in ascending order and up to the first failure:
the member at which it comes and those after it stay. -/
def retain {ε : Type} (keep : Nat → Except ε Bool) (s : σ) : σ × Option ε :=
  let answer := rejected keep (toList s)
  (remove s answer.1, answer.2)

end VersionSet

/-- The ways to hold a version set. -/
inductive SetKind
  | word
  | words
  | sorted
  deriving DecidableEq, Repr, Inhabited

/-- Whether few versions go into one word, and whether more of them go into several words rather
than into an ascending list. -/
structure SetSelection where
  smallInWord : Bool := true
  inWords : Bool := true
  deriving DecidableEq, Repr, Inhabited

namespace SetSelection

def choose (selection : SetSelection) (versions : Nat) : SetKind :=
  if selection.smallInWord && versions ≤ 32 then .word
  else if selection.inWords then .words
  else .sorted

end SetSelection

def defaultArenaBytes : Nat := 256 * 1024

end CardSearch
