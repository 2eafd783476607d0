import CardSearch.Catalog.Basic
import CardSearch.Dict
import CardSearch.Log
import CardSearch.SortIndex.Format
import CardSearch.Sorter

/-!
# The card store

A load brings one file into the store. It starts a fetch, for which a source may have no answer yet,
then waits for it, and ends with what the file gave; everyone who asked for the file shares the one
load.

The store loads properties and indices when they are asked for and keeps them for the life of a
snapshot. The first file that is accepted fixes the creation time of the snapshot. A file with
another creation time shows that the files were replaced: if the last clearing is long enough
ago, all loads that are under way are aborted, everything loaded is dropped, and later fetches go
past the caches of the source. Either way that load fails.

Loads are named by their place among all loads that were ever started.
-/

namespace CardSearch

/-- What the fetches that are under way have got by now, by the name of the file. -/
abbrev Source := String → Option (Except String (List UInt8))

abbrev Files := Dict (List UInt8)

namespace Files

def read (files : Files) (name : String) : Except String (List UInt8) :=
  match files.get? name with
  | some bytes => .ok bytes
  | none => .error "no such file"

/-- The source of these files, in which every fetch that is under way has ended. -/
def source (files : Files) : Source := fun name => some (files.read name)

end Files

/-- What a load is for: the data of a stored property, or the index of an order. -/
inductive LoadTarget
  | column (property : Property)
  | sorter (order : SortOrder)
  deriving DecidableEq, Repr

namespace LoadTarget

def file? : LoadTarget → Option String
  | column p => some p.file
  | sorter order => order.file?

end LoadTarget

inductive Loaded
  | column
  | sorter (sorter : Sorter)
  deriving DecidableEq, Repr

/-- How far a load has come. -/
inductive LoadStage
  | requested
  | fetching
  | finished (result : Except LoadError Loaded)
  deriving Repr

/-- A load: its target, the name of its file, and whether the fetch goes past the caches of the
source. -/
structure LoadTask where
  target : LoadTarget
  file : String
  reload : Bool
  stage : LoadStage
  deriving Repr

namespace LoadTask

def result? (t : LoadTask) : Option (Except LoadError Loaded) :=
  match t.stage with
  | .finished r => some r
  | _ => none

def abort (t : LoadTask) : LoadTask :=
  match t.stage with
  | .finished _ => t
  | _ => { t with stage := .finished (.error (.aborted t.file)) }

end LoadTask

abbrev LoadId := Nat

/-- Loaded data, loads, and what is reported about them. Times are in milliseconds, the refetch
interval is in seconds. -/
structure CardStore where
  catalog : Catalog := ∅
  creationTime? : Option UInt64 := none
  /-- All loads that were ever started. -/
  tasks : Array LoadTask := #[]
  /-- The loads that are under way or have succeeded since the last clearing. -/
  current : List (LoadTarget × LoadId) := []
  reload : Bool := false
  generation : Nat := 0
  clock : Nat := 0
  lastClear : Nat := 0
  refetchInterval : Nat
  metrics : Metrics := {}
  /-- The files whose fetch was started, and whether past the caches. -/
  fetches : Array (String × Bool) := #[]
  log : Array LogEntry := #[]

namespace CardStore

def report (s : CardStore) (event : LogEvent) (fields : List (String × String)) : CardStore :=
  { s with log := s.log.push (.ofEvent event fields) }

def result? (s : CardStore) (id : LoadId) : Option (Except LoadError Loaded) :=
  s.tasks[id]?.bind LoadTask.result?

def setTask (s : CardStore) (id : LoadId) (t : LoadTask) : CardStore :=
  { s with tasks := s.tasks.setIfInBounds id t }

/-- Starts a load of a target. One that needs no file has ended at once. -/
def start (s : CardStore) (target : LoadTarget) : CardStore × LoadId :=
  let task : LoadTask := match target.file? with
    | some file => ⟨target, file, s.reload, .requested⟩
    | none => ⟨target, "", s.reload, .finished (.ok (.sorter .name))⟩
  let id := s.tasks.size
  ({ s with tasks := s.tasks.push task, current := (target, id) :: s.current }, id)

def request (s : CardStore) (target : LoadTarget) : CardStore × LoadId :=
  match s.current.lookup target with
  | some id => (s, id)
  | none => s.start target

/-- What is loaded for a property. To know whether a version is a reprint any property of versions
will do, if one has been asked for. -/
def targetOf (s : CardStore) (p : Property) : LoadTarget :=
  if p = .reprint then
    .column ((Property.perVersion.find? (fun q => (s.current.lookup (.column q)).isSome)).getD .set)
  else .column p.source

def requestProperty (s : CardStore) (p : Property) : CardStore × LoadId := s.request (s.targetOf p)

def requestProperties (s : CardStore) : List Property → CardStore × List LoadId
  | [] => (s, [])
  | p :: ps =>
    let (s, id) := s.requestProperty p
    let (s, ids) := s.requestProperties ps
    (s, id :: ids)

def requestSorter (s : CardStore) (order : SortOrder) : CardStore × LoadId :=
  s.request (.sorter order)

/-- Drops everything that is loaded and aborts the loads under way. -/
def clear (s : CardStore) : CardStore :=
  { s with
    catalog := ∅
    creationTime? := none
    tasks := s.tasks.map LoadTask.abort
    current := []
    reload := true
    generation := s.generation + 1
    lastClear := s.clock
    metrics := { s.metrics with refetches := s.metrics.refetches + 1 } }

/-- Whether the last clearing is at least the refetch interval ago. -/
def mayClear (s : CardStore) : Bool := s.refetchInterval * 1000 ≤ s.clock - s.lastClear

/-- Takes note of a file of another snapshot. -/
def outdate (s : CardStore) (expected actual : UInt64) : CardStore :=
  let s := s.report .datasetStale
    [("expected", toString expected.toNat), ("actual", toString actual.toNat)]
  if s.mayClear then
    let s := s.clear
    s.report .datasetRefetch [("generation", toString s.generation)]
  else s

/-- Checks a creation time against that of the snapshot, which the first one fixes. -/
def checkSnapshot (s : CardStore) (time : UInt64) : CardStore × Except LoadError Unit :=
  match s.creationTime? with
  | none => ({ s with creationTime? := some time }, .ok ())
  | some expected =>
    if expected = time then (s, .ok ())
    else (s.outdate expected time, .error (.stale expected time))

def acceptPayload (s : CardStore) (p : Property) (payload : Payload) :
    CardStore × Except LoadError Loaded :=
  match s.checkSnapshot payload.creationTime with
  | (s, .error e) => (s, .error e)
  | (s, .ok ()) =>
    match s.catalog.insert p payload.data with
    | .error e => (s, .error e)
    | .ok catalog =>
      let s := { s with catalog }
      let records := toString (catalog.length?.getD 0)
      (s.report .propertyLoaded [("prop", p.label), ("records", records)], .ok .column)

def acceptIndex (s : CardStore) (order : SortOrder) (file : String) (index : SortIndex) :
    CardStore × Except LoadError Loaded :=
  match s.checkSnapshot index.creationTime with
  | (s, .error e) => (s, .error e)
  | (s, .ok ()) =>
    let s := s.report .sortIndexLoaded
      [("order", order.label), ("entries", toString index.entries.length)]
    match Sorter.ofIndex order index with
    | .error e => (s, .error (.index file e))
    | .ok sorter => (s, .ok (.sorter sorter))

def accept (s : CardStore) (target : LoadTarget) (file : String) (bytes : List UInt8) :
    CardStore × Except LoadError Loaded :=
  match target with
  | .column p =>
    match Payload.read? bytes with
    | none => (s, .error (.decode file .form))
    | some payload => s.acceptPayload p payload
  | .sorter order =>
    match SortIndex.read bytes with
    | .error e => (s, .error (.index (file ++ " (" ++ order.label ++ ")") e))
    | .ok index => s.acceptIndex order file index

/-- Ends a load with a result. A target whose load failed is loaded anew when it is asked for
again. -/
def settle (s : CardStore) (id : LoadId) (t : LoadTask) (result : Except LoadError Loaded) :
    CardStore :=
  let s := s.setTask id { t with stage := .finished result }
  match result with
  | .ok _ => s
  | .error _ => { s with current := s.current.filter (·.1 != t.target) }

def finish (s : CardStore) (id : LoadId) (t : LoadTask) (answer : Except String (List UInt8)) :
    CardStore :=
  match answer with
  | .error message => s.settle id t (.error (.io t.file message))
  | .ok bytes =>
    let (s, result) := s.accept t.target t.file bytes
    s.settle id t result

/-- Brings a load one step on: its fetch is started, or ended if the source has the answer. -/
def poll (s : CardStore) (source : Source) (id : LoadId) : CardStore :=
  match s.tasks[id]? with
  | none => s
  | some t =>
    match t.stage with
    | .finished _ => s
    | .requested =>
      { s.setTask id { t with stage := .fetching } with
        fetches := s.fetches.push (t.file, t.reload) }
    | .fetching =>
      match source t.file with
      | none => s
      | some answer => s.finish id t answer

end CardStore

end CardSearch
