import CardSearch.Evaluation
import CardSearch.VersionSet.SlotRange
import CardSearch.VersionSet.WordRange

/-!
# Evaluating a query in memory

The sets of a record can also stand in memory that they share. A set is then narrowed where it stands,
and what a connective needs beside it is copied behind all sets that were made before. The memory is
taken back as a whole before the next record, whatever its cells hold.
-/

namespace CardSearch

/-- What changes while a record is evaluated in memory. -/
structure MemoryState (μ : Type) where
  memory : μ
  missing : Array String := #[]

abbrev MemoryM (μ : Type) := EStateM EvalCause (MemoryState μ)

namespace MemoryM

variable {η μ : Type} [SharedSet η μ]

def attempt (op : μ → Except SetError (η × μ)) : MemoryM μ η := do
  let state ← get
  match op state.memory with
  | .ok (s, memory) =>
    set { state with memory }
    return s
  | .error e => throw (.set e)

/-- Drops the members for which the answer is no. What a failing question leaves stays as it is. -/
def retain (keep : Nat → Except EvalCause Bool) (s : η) : MemoryM μ η := do
  let state ← get
  let ((s, memory), failure) := SharedSet.retain keep state.memory s
  set { state with memory }
  match failure with
  | none => return s
  | some cause => throw cause

def noteMissing (id : String) : MemoryM μ Unit :=
  modify fun state => { state with missing := state.missing.push id }

def clear (s : η) : MemoryM μ η := attempt fun m => .ok (SharedSet.clear m s)

def narrowLeaf (test : Leaf → Nat → Except EvalCause Bool) (leaf : Leaf) (s : η) : MemoryM μ η :=
  if leaf.property.isPerVersion then retain (test leaf) s
  else
    match test leaf 0 with
    | .error e => throw e
    | .ok true => pure s
    | .ok false => clear s

mutual

def narrow (test : Leaf → Nat → Except EvalCause Bool) (subset : String → η → MemoryM μ η) :
    Condition → η → MemoryM μ η
  | .const true, s => pure s
  | .const false, s => clear s
  | .not c, s => do
    let matching ← attempt fun m => SharedSet.copy m s
    let matching ← narrow test subset c matching
    attempt fun m => SharedSet.diff m s matching
  | .any cs, s => do
    let candidates ← attempt fun m => SharedSet.copy m s
    let branch ← attempt fun m => SharedSet.copy m s
    let s ← clear s
    narrowAny test subset candidates branch s cs
  | .all cs, s => narrowAll test subset s cs
  | .leaf leaf, s => narrowLeaf test leaf s
  | .subset id, s => subset id s

/-- Adds those of the candidates to a set that satisfy one of the conditions. The branch is
overwritten with the candidates for each of them. -/
def narrowAny (test : Leaf → Nat → Except EvalCause Bool) (subset : String → η → MemoryM μ η)
    (candidates branch s : η) : List Condition → MemoryM μ η
  | [] => pure s
  | c :: cs => do
    let branch ← attempt fun m => SharedSet.copyInto m candidates branch
    let branch ← narrow test subset c branch
    let s ← attempt fun m => SharedSet.union m s branch
    if SharedSet.size s = SharedSet.size candidates then pure s
    else narrowAny test subset candidates branch s cs

def narrowAll (test : Leaf → Nat → Except EvalCause Bool) (subset : String → η → MemoryM μ η)
    (s : η) : List Condition → MemoryM μ η
  | [] => pure s
  | c :: cs => do
    let s ← narrow test subset c s
    if SharedSet.size s == 0 then pure s else narrowAll test subset s cs

end

def narrowSubset (test : Leaf → Nat → Except EvalCause Bool) (subsets : SubsetStore) :
    Nat → String → η → MemoryM μ η
  | depth, id, s =>
    match subsets.get? id with
    | none => do
      noteMissing id
      clear s
    | some subset =>
      match depth with
      | 0 => clear s
      | depth + 1 => narrow test (narrowSubset test subsets depth) subset.query.condition s

def narrowAllVersions (test : Leaf → Nat → Except EvalCause Bool) (subsets : SubsetStore)
    (condition : Condition) (versions : Nat) : MemoryM μ η := do
  let s ← attempt fun m => SharedSet.create m versions
  let s ← attempt fun m => .ok (SharedSet.fill m s)
  narrow test (narrowSubset test subsets subsets.size) condition s

def versionsIn (η : Type) [SharedSet η μ] (ctx : EvalContext) (record : Nat) :
    MemoryM μ (List Nat) := do
  let s : η ← narrowAllVersions (ctx.test record) ctx.subsets ctx.condition
    (ctx.versionCount record)
  return SharedSet.toList (← get).memory s

end MemoryM

/-- What is kept from one record to the next: the choice of sets and their memories. -/
structure MemoryEvaluator where
  selection : SetSelection
  words : Memory UInt32
  slots : Memory UInt16

/-- The outcome of one record that was evaluated in memory. -/
structure MemoryEvaluation where
  versions : Except EvalCause (List Nat)
  missing : Array String
  evaluator : MemoryEvaluator

namespace MemoryEvaluator

def new (selection : SetSelection) (bytes : Nat) : MemoryEvaluator where
  selection
  words := .new (WordsSet.arenaSlots bytes)
  slots := .new (SortedSet.arenaSlots bytes)

def run {μ : Type} (memory : μ) (steps : MemoryM μ (List Nat)) :
    Except EvalCause (List Nat) × MemoryState μ :=
  match EStateM.run steps { memory } with
  | .ok versions state => (.ok versions, state)
  | .error e state => (.error e, state)

/-- Evaluates a record. The memory of its sets is taken back first. -/
def evaluate (ev : MemoryEvaluator) (ctx : EvalContext) (record : Nat) : MemoryEvaluation :=
  match ev.selection.choose (ctx.versionCount record) with
  | .word =>
    let (versions, state) := run () (MemoryM.versionsIn InlineSet ctx record)
    ⟨versions, state.missing, ev⟩
  | .words =>
    let (versions, state) := run ev.words.reset (MemoryM.versionsIn WordRange ctx record)
    ⟨versions, state.missing, { ev with words := state.memory }⟩
  | .sorted =>
    let (versions, state) := run ev.slots.reset (MemoryM.versionsIn SlotRange ctx record)
    ⟨versions, state.missing, { ev with slots := state.memory }⟩

/-- Evaluates so many more records after those that are done. The first error ends it. -/
def scanFrom (ctx : EvalContext) (ev : MemoryEvaluator) (done : Array (Option Nat))
    (missing : Array String) : Nat → Scan
  | 0 => ⟨.ok done, missing⟩
  | n + 1 =>
    let e := ev.evaluate ctx done.size
    let missing := missing ++ e.missing
    match e.versions with
    | .error cause => ⟨.error ⟨cause, some (Scan.recordName ctx.catalog done.size)⟩, missing⟩
    | .ok versions => scanFrom ctx e.evaluator (done.push versions.head?) missing n

def scan (ctx : EvalContext) (selection : SetSelection) (bytes : Nat) : Scan :=
  match ctx.catalog.length? with
  | none => ⟨.error { cause := .lengthUnknown }, #[]⟩
  | some length => scanFrom ctx (new selection bytes) #[] #[] length

end MemoryEvaluator

end CardSearch
