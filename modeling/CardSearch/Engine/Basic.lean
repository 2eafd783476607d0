import CardSearch.Catalog.Basic
import CardSearch.Evaluation
import CardSearch.Json.Basic
import CardSearch.Query.Encoding
import CardSearch.Sorter
import CardSearch.Store.Awaiting

/-!
# The search engine

A run loads what a query needs, evaluates the query and puts the matches in order. Runs are keyed
by query, order and direction: while one is in flight, the same request joins it. A run tries
again when an attempt fails, up to a limit, and leaves the flight when it ends, well or not.

Runs are named by their place among all runs that were ever started.
-/

namespace CardSearch

/-- What makes two requests the same: the digest of the query, the order and the direction. -/
structure RunKey where
  digest : Digest
  order : SortOrder
  ascending : Bool
  deriving DecidableEq

structure QueryResult where
  key : RunKey
  records : List Nat
  versions : List Nat
  names : List String

def QueryResult.describe (r : QueryResult) : Json :=
  Json.ofMembers [("hash", .text r.key.digest.text), ("order", .text r.key.order.label),
    ("ascending", .bool r.key.ascending), ("records", .list (r.records.map Json.ofNat)),
    ("versions", .list (r.versions.map Json.ofNat)), ("names", Json.ofTexts r.names)]

/-- Why a search has no result. -/
inductive ExecutionError
  | load (error : LoadError)
  | evaluation (error : EvalError)
  deriving DecidableEq, Repr

/-- The message of an error. An error of evaluation that is not tied to a record means that the
data is not there. -/
def ExecutionError.message : ExecutionError → String
  | load e => "Failed to load card data: " ++ e.message
  | evaluation e =>
    match e.record with
    | some _ => e.message
    | none => "Card data unavailable: " ++ e.message

def SubsetConflict.entry : SubsetConflict → LogEntry
  | .id taken => .ofEvent .subsetConflict [("id", taken)]
  | .name taken => .ofEvent .subsetConflict [("name", taken)]

/-- How searches are carried out. -/
structure EngineSettings where
  selection : SetSelection := {}
  arenaBytes : Nat := defaultArenaBytes
  maxAttempts : Nat := 2
  /-- Properties that every search loads, so that its result can be shown. -/
  display : List Property := [.name]
  deriving DecidableEq, Repr

namespace EngineSettings

/-- The number of attempts of a run, which makes at least one. -/
def attempts (settings : EngineSettings) : Nat := max settings.maxAttempts 1

end EngineSettings

/-- How far a run has come. -/
inductive RunStage
  | created
  | loading (waiting : Waiting)
  | finished (result : Except ExecutionError QueryResult)

structure Run where
  query : Query
  key : RunKey
  attempt : Nat := 1
  started : Nat := 0
  stage : RunStage := .created

abbrev RunId := Nat

namespace Run

def result? (run : Run) : Option (Except ExecutionError QueryResult) :=
  match run.stage with
  | .finished r => some r
  | _ => none

/-- What is reported about a run at its start and its end. -/
def scope (run : Run) : LogScope :=
  ⟨"QUERY_EXECUTE", [("hash", run.key.digest.text), ("order", run.key.order.label),
    ("ascending", toString run.key.ascending)]⟩

end Run

/-- The store with the stored subsets and the runs over them. -/
structure Engine where
  store : CardStore
  subsets : SubsetStore := ∅
  settings : EngineSettings := {}
  runs : Array Run := #[]
  inFlight : List (RunKey × RunId) := []

namespace Engine

def report (e : Engine) (event : LogEvent) (fields : List (String × String)) : Engine :=
  { e with store := e.store.report event fields }

def write (e : Engine) (entry : LogEntry) : Engine :=
  { e with store := { e.store with log := e.store.log.push entry } }

def count (e : Engine) (f : Metrics → Metrics) : Engine :=
  { e with store := { e.store with metrics := f e.store.metrics } }

def setRun (e : Engine) (id : RunId) (run : Run) : Engine :=
  { e with runs := e.runs.setIfInBounds id run }

def result? (e : Engine) (id : RunId) : Option (Except ExecutionError QueryResult) :=
  e.runs[id]?.bind Run.result?

/-- Stores a new subset. A conflict is reported and stores nothing. -/
def createSubset (e : Engine) (subset : Subset) : Engine × Option Subset :=
  match e.subsets.create subset with
  | .ok subsets => ({ e with subsets }, some subset)
  | .error conflict => (e.write conflict.entry, none)

def updateSubset (e : Engine) (subset : Subset) : Engine :=
  { e with subsets := e.subsets.update subset }

def needed (e : Engine) (q : Query) : List Property :=
  (q.properties ∪ PropertySet.ofList e.settings.display).toList

def beginAttempt (e : Engine) (run : Run) : Engine × Waiting :=
  let (store, waiting) := Waiting.begin e.store (e.needed run.query) run.key.order
  ({ e with store }, waiting)

def resultOf (catalog : Catalog) (key : RunKey) (sorter : Sorter)
    (firsts : Array (Option Nat)) : QueryResult :=
  let version? (record : Nat) : Option Nat := firsts[record]?.join
  let records := sorter.sort version? (catalog.length?.getD 0) key.ascending
  { key, records
    versions := records.map (fun r => (version? r).getD 0)
    names := records.map (fun r => (catalog.name? r).getD "") }

/-- Evaluates the query of a run on what is loaded and puts the matches in order. -/
def evaluate (e : Engine) (run : Run) (sorter : Sorter) :
    Engine × Except ExecutionError QueryResult :=
  let catalog := e.store.catalog
  let scan := Scan.all ⟨catalog, e.subsets, run.query.condition⟩ e.settings.selection
    e.settings.arenaBytes
  let e := scan.missing.foldl (fun e id => e.report .subsetMissing [("subset_id", id)]) e
  match scan.firsts with
  | .error error => (e, .error (.evaluation error))
  | .ok firsts =>
    let length := catalog.length?.getD 0
    let e := e.count (fun m => { m with evaluated := m.evaluated + length })
    let e := match sorter.strays? length with
      | none => e
      | some (order, strays) =>
        e.report .sortIndexInvalidEntries [("order", order), ("count", toString strays)]
    (e, .ok (resultOf catalog run.key sorter firsts))

def endRun (e : Engine) (id : RunId) (run : Run) (result : Except ExecutionError QueryResult) :
    Engine :=
  let e := { e with inFlight := e.inFlight.filter (·.1 != run.key) }
  let e := e.setRun id { run with stage := .finished result }
  match result with
  | .ok r =>
    let e := e.count (fun m => { m with executed := m.executed + 1 })
    e.write (run.scope.complete [("count", toString r.records.length)]
      (e.store.clock - run.started))
  | .error error =>
    let e := e.report .queryFailed [("hash", run.key.digest.text),
      ("attempts", toString run.attempt), ("error", error.message)]
    let e := e.count (fun m => { m with failed := m.failed + 1 })
    e.write (run.scope.fail error.message)

def noteRetry (e : Engine) (run : Run) (error : ExecutionError) : Engine :=
  let e := e.report .queryAttemptFailed [("hash", run.key.digest.text),
    ("attempt", toString run.attempt), ("error", error.message)]
  e.count (fun m => { m with retried := m.retried + 1 })

/-- Carries a run on from what it waits for, with so many more attempts to make. -/
def carryOn (source : Source) (id : RunId) : Nat → Engine → Run → Waiting → Engine
  | attemptsLeft, e, run, waiting =>
    let (store, progress) := waiting.poll source e.store
    let e := { e with store }
    let (e, outcome) : Engine × Option (Except ExecutionError QueryResult) :=
      match progress with
      | .pending waiting => (e.setRun id { run with stage := .loading waiting }, none)
      | .failed error => (e, some (.error (.load error)))
      | .ready sorter =>
        let (e, result) := e.evaluate run sorter
        (e, some result)
    match outcome with
    | none => e
    | some (.ok result) => e.endRun id run (.ok result)
    | some (.error error) =>
      match attemptsLeft with
      | 0 => e.endRun id run (.error error)
      | attemptsLeft + 1 =>
        let e := e.noteRetry run error
        let run := { run with attempt := run.attempt + 1 }
        let (e, waiting) := e.beginAttempt run
        carryOn source id attemptsLeft e run waiting

/-- Brings a run on as far as it goes without waiting. -/
def poll (source : Source) (e : Engine) (id : RunId) : Engine :=
  match e.runs[id]? with
  | none => e
  | some run =>
    let attemptsLeft := e.settings.attempts - run.attempt
    match run.stage with
    | .finished _ => e
    | .loading waiting => carryOn source id attemptsLeft e run waiting
    | .created =>
      let e := e.write run.scope.start
      let run := { run with started := e.store.clock }
      let (e, waiting) := e.beginAttempt run
      carryOn source id attemptsLeft e run waiting

def request (e : Engine) (q : Query) (order : SortOrder) (ascending : Bool) : Engine × RunId :=
  let key : RunKey := ⟨q.digest, order, ascending⟩
  match e.inFlight.lookup key with
  | some id =>
    let e := e.report .queryDeduplicated [("hash", key.digest.text)]
    (e.count (fun m => { m with deduplicated := m.deduplicated + 1 }), id)
  | none =>
    let id := e.runs.size
    ({ e with runs := e.runs.push { query := q, key }, inFlight := (key, id) :: e.inFlight }, id)

end Engine

end CardSearch
