import CardSearch.Engine.Basic

/-!
# Waiting in rounds

Whoever waits for several things polls those that have not ended, in turn, round after round. A
number of rounds is given beforehand; a source that answers every fetch needs few of them.
-/

namespace CardSearch

structure RunRequest where
  query : Query
  order : SortOrder := .name
  ascending : Bool := true

namespace Engine

/-- Enough rounds for every attempt of a run against a source that answers every fetch. -/
def rounds (e : Engine) : Nat := 4 * (e.settings.attempts + 1)

def requestAll (source : Source) (e : Engine) : List RunRequest → Engine × List RunId
  | [] => (e, [])
  | r :: rs =>
    let (e, id) := e.request r.query r.order r.ascending
    let (e, ids) := requestAll source (e.poll source id) rs
    (e, id :: ids)

def pollRound (source : Source) (e : Engine) (ids : List RunId) : Engine :=
  ids.foldl (fun e id => e.poll source id) e

/-- Polls runs until all have ended, for so many rounds at most. A run that has been seen to end
is not polled again. -/
def pollUntilDone (source : Source) : Nat → Engine → List RunId → Engine
  | 0, e, _ => e
  | n + 1, e, ids =>
    match ids.filter (fun id => (e.result? id).isNone) with
    | [] => e
    | waiting => pollUntilDone source n (e.pollRound source waiting) waiting

def executeAll (source : Source) (e : Engine) (requests : List RunRequest) :
    Engine × List RunId :=
  let (e, ids) := e.requestAll source requests
  (pollUntilDone source (e.rounds * (requests.length + 1)) e ids, ids)

def execute (source : Source) (e : Engine) (request : RunRequest) : Engine × RunId :=
  let (e, id) := e.request request.query request.order request.ascending
  (pollUntilDone source (e.rounds + 1) e [id], id)

end Engine

namespace CardStore

/-- Polls loads until all have ended, for so many rounds at most, whether they end well or not. -/
def pollUntilDone (source : Source) : Nat → CardStore → List LoadId → CardStore
  | 0, s, _ => s
  | n + 1, s, ids =>
    match ids.filter (fun id => (s.result? id).isNone) with
    | [] => s
    | waiting => pollUntilDone source n (waiting.foldl (fun s id => s.poll source id) s) waiting

def loadEach (source : Source) (s : CardStore) (properties : List Property) :
    CardStore × List LoadId :=
  let (s, ids) := s.requestProperties properties
  (pollUntilDone source 3 s ids, ids)

def awaitAll (source : Source) : Nat → CardStore → List Awaited →
    CardStore × Option (Except LoadError Unit)
  | 0, s, _ => (s, none)
  | n + 1, s, waiting =>
    match s.pollAll source waiting with
    | (s, .error e) => (s, some (.error e))
    | (s, .ok waiting) =>
      if waiting.all (·.done) then (s, some (.ok ())) else awaitAll source n s waiting

def loadAll (source : Source) (s : CardStore) (properties : List Property) :
    CardStore × Option (Except LoadError Unit) :=
  let (s, ids) := s.requestProperties properties
  s.awaitAll source 3 (ids.map (fun id => { load := id }))

def loadSorter (source : Source) (s : CardStore) (order : SortOrder) : CardStore × LoadId :=
  let (s, id) := s.requestSorter order
  (pollUntilDone source 3 s [id], id)

def awaitSorter (source : Source) : Nat → CardStore → Waiting →
    CardStore × Option (Except LoadError Sorter)
  | 0, s, _ => (s, none)
  | n + 1, s, waiting =>
    match waiting.poll source s with
    | (s, .pending waiting) => awaitSorter source n s waiting
    | (s, .ready sorter) => (s, some (.ok sorter))
    | (s, .failed e) => (s, some (.error e))

end CardStore

namespace Engine

def preload (source : Source) (e : Engine) (properties : List Property) (order : SortOrder) :
    Engine × Option (Except LoadError Sorter) :=
  let needed := PropertySet.ofList (properties ++ e.settings.display)
  let (store, waiting) := Waiting.begin e.store needed.toList order
  let (store, result) := CardStore.awaitSorter source 3 store waiting
  ({ e with store }, result)

end Engine

end CardSearch
