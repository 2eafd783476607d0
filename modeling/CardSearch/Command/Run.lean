import CardSearch.Command.Arguments
import CardSearch.Config
import CardSearch.Engine.Rounds
import CardSearch.Query.Reading
import CardSearch.Query.Description
import CardSearch.Query.Simplify

/-!
# Carrying out commands

A command reports what it does in the log and answers with one line of JSON, or fails. The clock
stands still while it runs.
-/

namespace CardSearch

/-- Why a command fails. -/
inductive CommandError
  | config (error : ConfigError)
  | argument (message : String)
  | execution (error : ExecutionError)
  | loading (error : LoadError)
  | evaluation (error : EvalError)
  deriving DecidableEq, Repr

namespace CommandError

def code : CommandError → String
  | config _ => "CQ_CLI_CONFIG_ERROR"
  | argument _ => "CQ_CLI_INVALID_ARGUMENT"
  | execution _ | loading _ | evaluation _ => "CQ_CLI_EXECUTION_FAILED"

def reason : CommandError → String
  | config e => e.message
  | argument message => message
  | execution e => e.message
  | loading e => e.message
  | evaluation e => e.message

def message (e : CommandError) : String := e.code ++ ": " ++ e.reason

end CommandError

structure CommandOutcome where
  log : List LogEntry
  answer : Except CommandError Json

/-- What a command finds around it: the content of a file by its path, and ids that no subset has
yet. -/
structure Surroundings where
  file : String → Except String (List UInt8)
  freshId : Nat → String

namespace Command

def inDirectory (directory name : String) : String :=
  if directory = "" then name
  else if directory.toList.getLast? = some '/' then directory ++ name
  else directory ++ "/" ++ name

def source (around : Surroundings) (directory : String) : Source :=
  fun name => some (around.file (inDirectory directory name))

def dataFiles : List String :=
  (Property.all.filter Property.isStored).map Property.file ++ SortOrder.all.filterMap SortOrder.file?

/-- The configuration of a file, or the default one, with the directory of the command line. -/
def configure (around : Surroundings) (path directory : Option String) :
    List LogEntry × Except CommandError Config :=
  let place (c : Config) : Config :=
    match directory with
    | some d => { c with dataDirectory := d }
    | none => c
  match path with
  | none => ([], .ok (place {}))
  | some path =>
    match Config.load path (around.file path) with
    | .error e => ([], .error (.config e))
    | .ok c => ([c.loaded path], .ok (place c))

def trim (cs : List Char) : List Char :=
  let blank := CharClass.blank.contains
  ((cs.dropWhile blank).reverse.dropWhile blank).reverse

def definition (d : String) : Except CommandError (String × String) :=
  let cs := d.toList
  let name := cs.takeWhile (· ≠ '=')
  match cs.drop name.length with
  | [] => .error (.argument ("Subset must be NAME=QUERY: " ++ d))
  | _ :: text =>
    if (trim name).isEmpty then .error (.argument ("Subset without name: " ++ d))
    else .ok (String.ofList (trim name), String.ofList text)

def defineSubsets (around : Surroundings) (store : SubsetStore) :
    List String → List LogEntry × Except CommandError SubsetStore
  | [] => ([], .ok store)
  | d :: ds =>
    match definition d with
    | .error e => ([], .error e)
    | .ok (name, text) =>
      let query := (Query.read store.byName text).simplify store.byId
      match store.create ⟨around.freshId store.size, name, query⟩ with
      | .error conflict =>
        ([conflict.entry], .error (.argument ("Subset defined twice: " ++ name)))
      | .ok store => defineSubsets around store ds

def prepare (store : SubsetStore) (pool : Option Pool) (text : String) : Query :=
  let queries := (pool.map Pool.query).toList ++ [Query.read store.byName text]
  (Query.conjunction store.byId queries).simplify store.byId

def answered (data : Json) : Json := Json.ofMembers [("status", .text "ok"), ("data", data)]

def describe (q : Query) : Json :=
  Json.ofMembers [("condition", q.condition.describe), ("props", q.properties.describe),
    ("hash", .text q.digest.text)]

def describeResult (r : QueryResult) : Json :=
  Json.ofMembers [("hash", .text r.key.digest.text), ("count", Json.ofNat r.records.length),
    ("names", Json.ofTexts r.names)]

def storeOf (c : Config) : CardStore := { refetchInterval := c.refetchInterval }

def engineOf (c : Config) (subsets : SubsetStore) : Engine where
  store := storeOf c
  subsets
  settings := {
    selection := c.selection, arenaBytes := c.arenaBytes, maxAttempts := max c.maxAttempts 1 }

def execute (around : Surroundings) (c : Config) (subsets : SubsetStore) (request : RunRequest) :
    CommandOutcome :=
  let (e, id) := (engineOf c subsets).execute (source around c.dataDirectory) request
  let answer := match e.result? id with
    | some (.ok r) => .ok (answered (describeResult r))
    | some (.error error) => .error (.execution error)
    | none => .error (.argument "The search did not end")
  ⟨e.store.log.toList, answer⟩

def named {α : Type} (what : String) (ofLabel? : String → Option α) :
    Option String → Except CommandError (Option α)
  | none => .ok none
  | some name =>
    match ofLabel? name with
    | some a => .ok (some a)
    | none => .error (.argument ("Unknown " ++ what ++ ": " ++ name))

def after (log : List LogEntry) (outcome : CommandOutcome) : CommandOutcome :=
  { outcome with log := log ++ outcome.log }

/-- Goes on with what was prepared, unless that failed. -/
def andThen {α : Type} (prepared : List LogEntry × Except CommandError α)
    (next : α → CommandOutcome) : CommandOutcome :=
  match prepared with
  | (log, .error e) => ⟨log, .error e⟩
  | (log, .ok a) => after log (next a)

def benchTexts : List String :=
  ["t:creature", "c>=rg cmc<=3", "s:lea or s:leb", "-is:reprint r>=rare", "o:draw -t:instant"]

def benchSelections : List SetSelection := [⟨true, true⟩, ⟨true, false⟩, ⟨false, true⟩, ⟨false, false⟩]

def countMatches (catalog : Catalog) (selection : SetSelection) (bytes : Nat) :
    List Query → Except EvalError Nat
  | [] => .ok 0
  | q :: qs => do
    let firsts ← (Scan.all ⟨catalog, ∅, q.condition⟩ selection bytes).firsts
    let rest ← countMatches catalog selection bytes qs
    return firsts.countP Option.isSome + rest

/-- The description of the scans with one choice of sets, each made so many times. -/
def benchResult (catalog : Catalog) (bytes iterations : Nat) (selection : SetSelection) :
    Except EvalError Json := do
  let found ←
    if iterations = 0 then .ok 0
    else countMatches catalog selection bytes (benchTexts.map (prepare ∅ none))
  return Json.ofMembers [("small_set_optimization", .bool selection.smallInWord),
    ("bitset", .bool selection.inWords), ("elapsed_ms", Json.ofNat 0),
    ("matches", Json.ofNat (iterations * found))]

/-- Scans the catalog with every choice of sets. -/
def runBench (around : Surroundings) (iterations : Nat) (c : Config) : CommandOutcome :=
  let (s, result) := (storeOf c).loadAll (source around c.dataDirectory) Property.all
  let answer := match result with
    | some (.error e) => .error (.loading e)
    | _ =>
      match benchSelections.mapM (benchResult s.catalog c.arenaBytes iterations) with
      | .error e => .error (.evaluation e)
      | .ok results => .ok (answered (Json.ofMembers [
          ("records", Json.ofNat (s.catalog.length?.getD 0)), ("iterations", Json.ofNat iterations),
          ("queries", Json.ofTexts benchTexts), ("results", .list results)]))
  ⟨s.log.toList, answer⟩

def runQuery (around : Surroundings) (sort : Option String) (descending : Bool)
    (pool : Option String) (subsets : List String) (text : String) (c : Config) :
    CommandOutcome :=
  andThen ([], named "sort order" SortOrder.ofLabel? sort) fun order =>
  andThen ([], named "pool" Pool.ofLabel? pool) fun pool =>
  andThen (defineSubsets around ∅ subsets) fun store =>
    execute around c store
      ⟨prepare store pool text, order.getD c.defaultOrder, !descending⟩

def configFile? : Command → Option String
  | query config .. => config
  | parse .. => none
  | bench config .. => config

/-- The files of card data that a command may read. They depend on its configuration only. -/
def cardFiles (around : Surroundings) : Command → List String
  | parse .. => []
  | query config directory .. | bench config directory _ =>
    match (configure around config directory).2 with
    | .error _ => []
    | .ok c => dataFiles.map (inDirectory c.dataDirectory)

def idCount : Command → Nat
  | query _ _ _ _ _ subsets _ => subsets.length
  | parse subsets _ => subsets.length
  | bench .. => 0

def run (around : Surroundings) : Command → CommandOutcome
  | query config directory sort descending pool subsets text =>
    andThen (configure around config directory)
      (runQuery around sort descending pool subsets text)
  | parse subsets text =>
    andThen (defineSubsets around ∅ subsets) fun store =>
      ⟨[], .ok (answered (describe (prepare store none text)))⟩
  | bench config directory iterations =>
    andThen (configure around config directory) (runBench around iterations)

end Command

end CardSearch
