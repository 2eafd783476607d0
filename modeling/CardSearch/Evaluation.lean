import CardSearch.Catalog.Basic
import CardSearch.Matching
import CardSearch.Subset
import CardSearch.VersionSet.Basic
import CardSearch.VersionSet.Sorted

/-!
# Evaluating a query

A record starts with the set of all its versions, and the condition narrows it down: connectives
combine parts of the set, a leaf on a property of versions drops those that fail it, and a leaf
on a property of the card keeps all of them or none. Of a record that has versions left, the
first one is reported.
-/

namespace CardSearch

/-- What changes while a record is evaluated: the arena, and the ids of subsets that were looked
for in vain. -/
structure EvalState where
  arena : Arena
  missing : Array String := #[]

abbrev EvalM := EStateM EvalCause EvalState

namespace EvalM

def ofSet {α : Type} : Except SetError α → EvalM α
  | .ok a => pure a
  | .error e => throw (.set e)

def ofArena {σ : Type} (make : Arena → Except SetError (σ × Arena)) : EvalM σ := do
  let state ← get
  let (s, arena) ← ofSet (make state.arena)
  set { state with arena }
  return s

def noteMissing (id : String) : EvalM Unit :=
  modify (fun state => { state with missing := state.missing.push id })

end EvalM

section Narrowing

open VersionSet

variable {σ : Type} [VersionSet σ]

/-- Narrows a set to the versions that satisfy a leaf, given the answer for each of them. -/
def narrowLeaf (test : Leaf → Nat → Except EvalCause Bool) (leaf : Leaf) (s : σ) : EvalM σ :=
  if leaf.property.isPerVersion then
    match retain (test leaf) s with
    | (s, none) => pure s
    | (_, some e) => throw e
  else
    match test leaf 0 with
    | .error e => throw e
    | .ok true => pure s
    | .ok false => pure (clear s)

mutual

/-- Narrows a set to the versions that satisfy a condition, given the answers of leaves and what a
reference to a subset narrows to. -/
def narrow (test : Leaf → Nat → Except EvalCause Bool) (subset : String → σ → EvalM σ) :
    Condition → σ → EvalM σ
  | .const true, s => pure s
  | .const false, s => pure (clear s)
  | .not c, s => do
    let all ← EvalM.ofArena (fun arena => copy arena s)
    let matching ← narrow test subset c all
    EvalM.ofSet (diff s matching)
  | .any cs, s => do
    let candidates ← EvalM.ofArena (fun arena => copy arena s)
    let _ ← EvalM.ofArena (fun arena => copy arena s)
    narrowAny test subset candidates (clear s) cs
  | .all cs, s => narrowAll test subset s cs
  | .leaf leaf, s => narrowLeaf test leaf s
  | .subset id, s => subset id s

/-- Adds to the versions found those of the candidates that satisfy one of the conditions, until
none is left to be found. -/
def narrowAny (test : Leaf → Nat → Except EvalCause Bool) (subset : String → σ → EvalM σ)
    (candidates found : σ) : List Condition → EvalM σ
  | [] => pure found
  | c :: cs => do
    let matching ← narrow test subset c candidates
    let found ← EvalM.ofSet (union found matching)
    if size found = size candidates then pure found
    else narrowAny test subset candidates found cs

/-- Narrows a set by one condition after the other, until nothing is left. -/
def narrowAll (test : Leaf → Nat → Except EvalCause Bool) (subset : String → σ → EvalM σ)
    (s : σ) : List Condition → EvalM σ
  | [] => pure s
  | c :: cs => do
    let s ← narrow test subset c s
    if isEmpty s then pure s else narrowAll test subset s cs

end

/-- Narrows a set to the versions in a stored subset. A subset that is not stored has none. So has
one that is reached through more references than there are subsets: it refers to itself. -/
def narrowSubset (test : Leaf → Nat → Except EvalCause Bool) (subsets : SubsetStore) :
    Nat → String → σ → EvalM σ
  | depth, id, s =>
    match subsets.get? id with
    | none => do
      EvalM.noteMissing id
      return clear s
    | some subset =>
      match depth with
      | 0 => pure (clear s)
      | depth + 1 => narrow test (narrowSubset test subsets depth) subset.query.condition s

def narrowAllVersions (test : Leaf → Nat → Except EvalCause Bool) (subsets : SubsetStore)
    (condition : Condition) (versions : Nat) : EvalM σ := do
  let s ← EvalM.ofArena (fun arena => create arena versions)
  narrow test (narrowSubset test subsets subsets.size) condition (fill s)

end Narrowing

/-- What a query is evaluated against. -/
structure EvalContext where
  catalog : Catalog
  subsets : SubsetStore
  condition : Condition

namespace EvalContext

def test (ctx : EvalContext) (record : Nat) (leaf : Leaf) (version : Nat) :
    Except EvalCause Bool :=
  leaf.matchesValues (ctx.catalog.getForVersion record version leaf.property)

/-- The number of versions of a record; where none is known there is one. -/
def versionCount (ctx : EvalContext) (record : Nat) : Nat :=
  (ctx.catalog.versionCount? record).getD 1

end EvalContext

/-- What is kept from one record to the next: the choice of sets and their arenas. -/
structure Evaluator where
  selection : SetSelection
  wordsArena : Arena
  sortedArena : Arena

/-- The outcome of one record: its versions that satisfy the query, in ascending order. -/
structure Evaluation where
  versions : Except EvalCause (List Nat)
  missing : Array String
  evaluator : Evaluator

namespace Evaluator

def new (selection : SetSelection) (bytes : Nat) : Evaluator where
  selection
  wordsArena := { slots := WordsSet.arenaSlots bytes }
  sortedArena := { slots := SortedSet.arenaSlots bytes }

def versionsIn (σ : Type) [VersionSet σ] (ctx : EvalContext) (record : Nat) : EvalM (List Nat) := do
  let s : σ ← narrowAllVersions (ctx.test record) ctx.subsets ctx.condition
    (ctx.versionCount record)
  return VersionSet.toList s

def run (arena : Arena) (steps : EvalM (List Nat)) :
    Except EvalCause (List Nat) × EvalState :=
  match EStateM.run steps { arena } with
  | .ok versions state => (.ok versions, state)
  | .error e state => (.error e, state)

/-- Evaluates a record. The arena of its sets is reset first. -/
def evaluate (ev : Evaluator) (ctx : EvalContext) (record : Nat) : Evaluation :=
  match ev.selection.choose (ctx.versionCount record) with
  | .word =>
    let (versions, state) := run { slots := 0 } (versionsIn WordSet ctx record)
    ⟨versions, state.missing, ev⟩
  | .words =>
    let (versions, state) := run ev.wordsArena.reset (versionsIn WordsSet ctx record)
    ⟨versions, state.missing, { ev with wordsArena := state.arena }⟩
  | .sorted =>
    let (versions, state) := run ev.sortedArena.reset (versionsIn SortedSet ctx record)
    ⟨versions, state.missing, { ev with sortedArena := state.arena }⟩

end Evaluator

/-- The first matching version of every record, where it has one, and the ids of subsets that were
looked for in vain. -/
structure Scan where
  firsts : Except EvalError (Array (Option Nat))
  missing : Array String

namespace Scan

def recordName (catalog : Catalog) (record : Nat) : String :=
  (catalog.name? record).getD ("#" ++ toString record)

/-- Evaluates so many more records after those that are done. The first error ends it. -/
def scanFrom (ctx : EvalContext) (ev : Evaluator) (done : Array (Option Nat))
    (missing : Array String) : Nat → Scan
  | 0 => ⟨.ok done, missing⟩
  | n + 1 =>
    let e := ev.evaluate ctx done.size
    let missing := missing ++ e.missing
    match e.versions with
    | .error cause => ⟨.error ⟨cause, some (recordName ctx.catalog done.size)⟩, missing⟩
    | .ok versions => scanFrom ctx e.evaluator (done.push versions.head?) missing n

def all (ctx : EvalContext) (selection : SetSelection) (bytes : Nat) : Scan :=
  match ctx.catalog.length? with
  | none => ⟨.error { cause := .lengthUnknown }, #[]⟩
  | some length => scanFrom ctx (Evaluator.new selection bytes) #[] #[] length

end Scan

end CardSearch
