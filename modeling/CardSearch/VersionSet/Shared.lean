import CardSearch.VersionSet.Basic

/-!
# Version sets that share memory

A set in shared memory is known by a handle, which says where its members stand; operations on it
take the memory and give it back changed. A set that is a value shares nothing but the counters of
an arena. Whatever holds the sets, any number of them can be made and changed step by step.
-/

namespace CardSearch

/-- A way to hold sets of numbers below a capacity in memory that they share. The operations on two
sets are meant for distinct ones of one capacity. -/
class SharedSet (η : Type) (μ : outParam Type) where
  /-- Whether `push` only takes values above all members. -/
  pushesInOrder : Bool := false
  /-- The slots of the memory. -/
  arena : μ → Arena
  /-- Makes an empty set of a capacity. -/
  create : μ → (capacity : Nat) → Except SetError (η × μ)
  /-- The number below which all members lie. -/
  capacity : η → Nat
  /-- The number of members. -/
  size : η → Nat
  /-- Whether a value is a member. -/
  contains : μ → η → Nat → Bool
  /-- Makes a value below the capacity a member. -/
  add : μ → η → Nat → η × μ
  /-- Makes a value a member of which the caller knows that it may be pushed. -/
  push : μ → η → Nat → η × μ
  /-- Takes a value below the capacity out. -/
  remove : μ → η → Nat → η × μ
  /-- Takes all values out. -/
  clear : μ → η → η × μ
  /-- Makes all values below the capacity members. -/
  fill : μ → η → η × μ
  /-- Swaps the members with the other values below the capacity. -/
  invert : μ → η → η × μ
  /-- Makes the members of the second set members of the first. -/
  unite : μ → η → η → η × μ
  /-- Takes the members of the second set out of the first. -/
  subtract : μ → η → η → η × μ
  /-- Makes another set with the same members. -/
  copy : μ → η → Except SetError (η × μ)
  /-- Puts the members of the first set in place of those of the second. -/
  copyOnto : μ → η → η → η × μ
  /-- The least member. -/
  first? : μ → η → Option Nat
  /-- The members in ascending order. -/
  toList : μ → η → List Nat
  /-- Drops the members for which the answer is no, in ascending order and up to the first
  failure. -/
  retain {ε : Type} : (Nat → Except ε Bool) → μ → η → (η × μ) × Option ε

/-- Sets that are values share the counters of an arena. -/
instance {σ : Type} [VersionSet σ] : SharedSet σ Arena where
  arena arena := arena
  create := VersionSet.create
  capacity := VersionSet.capacity
  size := VersionSet.size
  contains _ := VersionSet.contains
  add arena s v := (VersionSet.add s v, arena)
  push arena s v := (VersionSet.add s v, arena)
  remove arena s v := (VersionSet.remove s [v], arena)
  clear arena s := (VersionSet.clear s, arena)
  fill arena s := (VersionSet.fill s, arena)
  invert arena s := (VersionSet.invert s, arena)
  unite arena s t := (VersionSet.unite s t, arena)
  subtract arena s t := (VersionSet.subtract s t, arena)
  copy := VersionSet.copy
  copyOnto arena s _ := (s, arena)
  first? _ := VersionSet.first?
  toList _ := VersionSet.toList
  retain keep arena s :=
    let kept := VersionSet.retain keep s
    ((kept.1, arena), kept.2)

namespace SharedSet

variable {η μ : Type} [SharedSet η μ]

def checkBounds (s : η) (value : Nat) : Except SetError Unit :=
  if value < capacity s then .ok () else .error (.outOfBounds value (capacity s))

def checkCapacity (s t : η) : Except SetError Unit :=
  if capacity s = capacity t then .ok ()
  else .error (.capacityMismatch (capacity s) (capacity t))

/-- Makes a value a member, which must lie below the capacity. -/
def insert (m : μ) (s : η) (value : Nat) : Except SetError (η × μ) := do
  checkBounds s value
  return add m s value

/-- Takes a value out, which must lie below the capacity. -/
def erase (m : μ) (s : η) (value : Nat) : Except SetError (η × μ) := do
  checkBounds s value
  return remove m s value

/-- Makes the members of the second set members of the first. -/
def union (m : μ) (s t : η) : Except SetError (η × μ) := do
  checkCapacity s t
  return unite m s t

/-- Takes the members of the second set out of the first. -/
def diff (m : μ) (s t : η) : Except SetError (η × μ) := do
  checkCapacity s t
  return subtract m s t

/-- The second set with the members of the first in place of its own. -/
def copyInto (m : μ) (s t : η) : Except SetError (η × μ) := do
  checkCapacity s t
  return copyOnto m s t

end SharedSet

/-- What can be asked of sets that are numbered in the order in which they were made. -/
inductive SetOp (ε : Type)
  | create (capacity : Nat)
  | insert (i value : Nat)
  | erase (i value : Nat)
  | push (i value : Nat)
  | clear (i : Nat)
  | fill (i : Nat)
  | invert (i : Nat)
  | union (i j : Nat)
  | diff (i j : Nat)
  | copy (i : Nat)
  | copyInto (i j : Nat)
  | retain (i : Nat) (keep : Nat → Except ε Bool)

/-- How a step ends: it is done, there is no such set, it fails, or a question about a member
stopped it. -/
inductive SetAnswer (ε : Type)
  | done
  | missing
  | failed (e : SetError)
  | stopped (e : ε)
  deriving DecidableEq, Repr

/-- What a set shows of itself. -/
structure SetReport where
  capacity : Nat
  size : Nat
  first? : Option Nat
  values : List Nat
  has : Nat → Bool

/-- Sets made one after the other in memory that they share. -/
structure Sets (η μ : Type) where
  memory : μ
  handles : List η := []

namespace Sets

variable {η μ : Type} [SharedSet η μ] {ε : Type}

def report (m : μ) (s : η) : SetReport where
  capacity := SharedSet.capacity s
  size := SharedSet.size s
  first? := SharedSet.first? m s
  values := SharedSet.toList m s
  has := SharedSet.contains m s

def reports (sets : Sets η μ) : List SetReport := sets.handles.map (report sets.memory)

def withSet (sets : Sets η μ) (i : Nat) (next : η → Sets η μ × SetAnswer ε) :
    Sets η μ × SetAnswer ε :=
  match sets.handles[i]? with
  | some s => next s
  | none => (sets, .missing)

/-- Puts the outcome of an operation in place of one set. -/
def replacing (sets : Sets η μ) (i : Nat) : Except SetError (η × μ) → Sets η μ × SetAnswer ε
  | .ok (s, m) => (⟨m, sets.handles.set i s⟩, .done)
  | .error e => (sets, .failed e)

/-- Puts the outcome of an operation behind the sets. -/
def adding (sets : Sets η μ) : Except SetError (η × μ) → Sets η μ × SetAnswer ε
  | .ok (s, m) => (⟨m, sets.handles ++ [s]⟩, .done)
  | .error e => (sets, .failed e)

def step (sets : Sets η μ) : SetOp ε → Sets η μ × SetAnswer ε
  | .create capacity => sets.adding (SharedSet.create sets.memory capacity)
  | .insert i v => sets.withSet i fun s => sets.replacing i (SharedSet.insert sets.memory s v)
  | .erase i v => sets.withSet i fun s => sets.replacing i (SharedSet.erase sets.memory s v)
  | .push i v => sets.withSet i fun s => sets.replacing i (.ok (SharedSet.push sets.memory s v))
  | .clear i => sets.withSet i fun s => sets.replacing i (.ok (SharedSet.clear sets.memory s))
  | .fill i => sets.withSet i fun s => sets.replacing i (.ok (SharedSet.fill sets.memory s))
  | .invert i => sets.withSet i fun s => sets.replacing i (.ok (SharedSet.invert sets.memory s))
  | .union i j => sets.withSet i fun s => sets.withSet j fun t =>
      sets.replacing i (SharedSet.union sets.memory s t)
  | .diff i j => sets.withSet i fun s => sets.withSet j fun t =>
      sets.replacing i (SharedSet.diff sets.memory s t)
  | .copy i => sets.withSet i fun s => sets.adding (SharedSet.copy sets.memory s)
  | .copyInto i j => sets.withSet i fun s => sets.withSet j fun t =>
      sets.replacing j (SharedSet.copyInto sets.memory s t)
  | .retain i keep => sets.withSet i fun s =>
      let (kept, failure) := SharedSet.retain keep sets.memory s
      let (next, answer) := sets.replacing i (.ok kept)
      (next, failure.elim answer .stopped)

/-- The answers of a run, and what the sets show after each of its steps. -/
def trace (sets : Sets η μ) : List (SetOp ε) → List (SetAnswer ε × List SetReport)
  | [] => []
  | op :: ops =>
    let next := sets.step op
    (next.2, next.1.reports) :: next.1.trace ops

end Sets

end CardSearch
