/-!
# Log lines and counters

One line for each event: a JSON object that starts with the event and the severity and goes on
with the fields in ascending order of their names, fields of one name in the order given. Texts
are escaped so that no value can end its quotes or its line.

Counters only grow. A request is either joined to a run, or it starts one that ends in success or in
failure.
-/

namespace CardSearch

/-- How grave an event is. -/
inductive Severity
  | trace | info | warn | error | fatal
  deriving DecidableEq, Repr, Inhabited

namespace Severity

def all : List Severity := [trace, info, warn, error, fatal]

def level : Severity → Nat
  | trace => 0 | info => 1 | warn => 2 | error => 3 | fatal => 4

def label : Severity → String
  | trace => "TRACE" | info => "INFO" | warn => "WARN" | error => "ERROR" | fatal => "FATAL"

/-- The severity of a name as it is configured, in either case of ASCII letters. -/
def ofName? (name : String) : Option Severity :=
  match String.ofList (name.toList.map Char.toLower) with
  | "trace" => some trace
  | "info" => some info
  | "warn" | "warning" => some warn
  | "error" => some error
  | "fatal" => some fatal
  | _ => none

end Severity

/-- What the engine reports. -/
inductive LogEvent
  | configLoaded
  | queryExecuteBegin | queryExecuteComplete | queryDeduplicated | queryAttemptFailed | queryFailed
  | propertyLoaded | sortIndexLoaded | sortIndexInvalidEntries | datasetStale | datasetRefetch
  | subsetMissing | subsetConflict
  deriving DecidableEq, Repr

namespace LogEvent

def all : List LogEvent :=
  [configLoaded, queryExecuteBegin, queryExecuteComplete, queryDeduplicated, queryAttemptFailed,
   queryFailed, propertyLoaded, sortIndexLoaded, sortIndexInvalidEntries, datasetStale,
   datasetRefetch, subsetMissing, subsetConflict]

def label : LogEvent → String
  | configLoaded => "CONFIG_LOADED"
  | queryExecuteBegin => "QUERY_EXECUTE_BEGIN"
  | queryExecuteComplete => "QUERY_EXECUTE_COMPLETE"
  | queryDeduplicated => "QUERY_DEDUPLICATED"
  | queryAttemptFailed => "QUERY_ATTEMPT_FAILED"
  | queryFailed => "QUERY_FAILED"
  | propertyLoaded => "PROPERTY_LOADED"
  | sortIndexLoaded => "SORT_INDEX_LOADED"
  | sortIndexInvalidEntries => "SORT_INDEX_INVALID_ENTRIES"
  | datasetStale => "DATASET_STALE"
  | datasetRefetch => "DATASET_REFETCH"
  | subsetMissing => "SUBSET_MISSING"
  | subsetConflict => "SUBSET_CONFLICT"

def severity : LogEvent → Severity
  | queryAttemptFailed | datasetStale | datasetRefetch | sortIndexInvalidEntries => .warn
  | queryFailed | subsetMissing | subsetConflict => .error
  | propertyLoaded | sortIndexLoaded => .trace
  | _ => .info

end LogEvent

structure LogEntry where
  severity : Severity
  event : String
  fields : List (String × String)
  deriving DecidableEq, Repr

namespace LogEntry

def ofEvent (event : LogEvent) (fields : List (String × String)) : LogEntry :=
  ⟨event.severity, event.label, fields⟩

def isControl (c : Char) : Bool := c.toNat < 32 || (127 ≤ c.toNat && c.toNat < 160)

/-- How a character stands in a quoted text. -/
def escapedChar (c : Char) : List Char :=
  match c with
  | '"' => ['\\', '"']
  | '\\' => ['\\', '\\']
  | '\n' => ['\\', 'n']
  | '\r' => ['\\', 'r']
  | '\t' => ['\\', 't']
  | c =>
    if isControl c then
      ['\\', 'u', '0', '0', Nat.digitChar (c.toNat / 16), Nat.digitChar (c.toNat % 16)]
    else [c]

def quoted (s : String) : List Char := '"' :: s.toList.flatMap escapedChar ++ ['"']

def sortedFields (entry : LogEntry) : List (String × String) :=
  entry.fields.mergeSort (fun a b => a.1 ≤ b.1)

def members (entry : LogEntry) : List (String × String) :=
  ("event", entry.event) :: ("severity", entry.severity.label) :: entry.sortedFields

def lineChars (entry : LogEntry) : List Char :=
  '\x7b' :: [','].intercalate (entry.members.map (fun m => quoted m.1 ++ ':' :: quoted m.2)) ++
    ['\x7d']

def render (entry : LogEntry) : String := String.ofList (entry.lineChars ++ ['\n'])

/-- Whether the line is among the errors rather than the output. -/
def isError (entry : LogEntry) : Bool := Severity.error.level ≤ entry.severity.level

def filter (least : Severity) (entries : List LogEntry) : List LogEntry :=
  entries.filter (fun e => least.level ≤ e.severity.level)

end LogEntry

/-- A stretch of work that is reported at its start and at its end, with the same fields. -/
structure LogScope where
  name : String
  fields : List (String × String)
  deriving DecidableEq, Repr

namespace LogScope

def start (scope : LogScope) : LogEntry := ⟨.info, scope.name ++ "_BEGIN", scope.fields⟩

/-- The work is done, after some milliseconds. -/
def complete (scope : LogScope) (extra : List (String × String)) (elapsed : Nat) : LogEntry :=
  ⟨.info, scope.name ++ "_COMPLETE", scope.fields ++ extra ++ [("elapsed_ms", toString elapsed)]⟩

def fail (scope : LogScope) (reason : String) : LogEntry :=
  ⟨.error, scope.name ++ "_ERROR", scope.fields ++ [("reason", reason)]⟩

def abandon (scope : LogScope) : LogEntry := scope.fail "dropped before completion"

end LogScope

structure Metrics where
  executed : Nat := 0
  deduplicated : Nat := 0
  retried : Nat := 0
  failed : Nat := 0
  evaluated : Nat := 0
  refetches : Nat := 0
  deriving DecidableEq, Repr, Inhabited

namespace Metrics

def entries (m : Metrics) : List (String × Nat) :=
  [("queries_executed", m.executed), ("queries_deduplicated", m.deduplicated),
   ("attempts_retried", m.retried), ("queries_failed", m.failed),
   ("records_evaluated", m.evaluated), ("stale_refetches", m.refetches)]

end Metrics

end CardSearch
