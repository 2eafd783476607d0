import CardSearch.Bytes
import CardSearch.Json.Form
import CardSearch.Log
import CardSearch.Sorter
import CardSearch.VersionSet.Basic

/-!
# Configuration

The configuration is a JSON object whose members all have defaults; members of other names are
passed over. A list of the values in the order of the members is accepted too, and what is
missing at its end has its default.
-/

namespace CardSearch

/-- What can be configured. The refetch interval is in seconds. -/
structure Config where
  dataDirectory : String := "./data"
  selection : SetSelection := {}
  arenaBytes : Nat := defaultArenaBytes
  maxAttempts : Nat := 2
  refetchInterval : Nat := 60
  defaultOrder : SortOrder := .name
  deriving DecidableEq, Repr, Inhabited

/-- Why there is no configuration. -/
inductive ConfigError
  | unreadable (path message : String)
  | form
  | noAttempts
  deriving DecidableEq, Repr

def ConfigError.formFault : String := "unexpected form of configuration"

def ConfigError.message : ConfigError → String
  | unreadable path message => "Failed to read config " ++ path ++ ": " ++ message
  | form => "Invalid config JSON: " ++ formFault
  | noAttempts => "Invalid config: max_attempts must be > 0"

namespace Config

def bool? : Form → Option Bool
  | .bool b => some b
  | _ => none

def text? : Form → Option String
  | .text pieces => Form.stringOf? pieces
  | _ => none

def natural? (bits : Nat) : Form → Option Nat
  | .number n =>
    match n.value? with
    | some (.natural k) => if k.toNat < 1 <<< bits then some k.toNat else none
    | _ => none
  | _ => none

/-- An order in a form: its name, or an object with the name as its only member and no value. -/
def order? : Form → Option SortOrder
  | .text pieces => (Form.stringOf? pieces).bind SortOrder.ofLabel?
  | .object [(pieces, .null)] => (Form.stringOf? pieces).bind SortOrder.ofLabel?
  | _ => none

/-- The members in order: each puts its value into a configuration. -/
def members : List (String × (Config → Form → Option Config)) :=
  [("data_dir", fun c f => (text? f).map (fun v => { c with dataDirectory := v })),
   ("small_set_optimization", fun c f =>
      (bool? f).map (fun v => { c with selection := { c.selection with smallInWord := v } })),
   ("bitset", fun c f =>
      (bool? f).map (fun v => { c with selection := { c.selection with inWords := v } })),
   ("arena_bytes", fun c f => (natural? 64 f).map (fun v => { c with arenaBytes := v })),
   ("max_attempts", fun c f => (natural? 32 f).map (fun v => { c with maxAttempts := v })),
   ("refetch_interval_secs", fun c f =>
      (natural? 64 f).map (fun v => { c with refetchInterval := v })),
   ("default_sort_order", fun c f => (order? f).map (fun v => { c with defaultOrder := v }))]

def ofValues? (c : Config) :
    List (String × (Config → Form → Option Config)) → List Form → Option Config
  | _, [] => some c
  | [], _ :: _ => none
  | m :: ms, f :: fs =>
    match m.2 c f with
    | none => none
    | some c => ofValues? c ms fs

/-- A configuration from the members of an object, given the names that came before. A known name
may not come twice. -/
def ofMembers? (c : Config) (seen : List String) :
    List (List TextPiece × Form) → Option Config
  | [] => some c
  | (pieces, f) :: rest =>
    match Form.stringOf? pieces with
    | none => none
    | some name =>
      match members.lookup name with
      | none => ofMembers? c seen rest
      | some put =>
        if seen.contains name then none
        else
          match put c f with
          | none => none
          | some c => ofMembers? c (name :: seen) rest

def ofForm? : Form → Option Config
  | .list values => ofValues? {} members values
  | .object ms => ofMembers? {} [] ms
  | _ => none

def load (path : String) (file : Except String (List UInt8)) : Except ConfigError Config :=
  match file with
  | .error message => .error (.unreadable path message)
  | .ok bytes =>
    match Bytes.text? bytes with
    | none => .error (.unreadable path "stream did not contain valid UTF-8")
    | some text =>
      match (Form.parse? text.toList).bind ofForm? with
      | none => .error .form
      | some c => if c.maxAttempts = 0 then .error .noAttempts else .ok c

def describe (c : Config) : Json :=
  Json.ofMembers [("data_dir", .text c.dataDirectory),
    ("small_set_optimization", .bool c.selection.smallInWord),
    ("bitset", .bool c.selection.inWords), ("arena_bytes", Json.ofNat c.arenaBytes),
    ("max_attempts", Json.ofNat c.maxAttempts),
    ("refetch_interval_secs", Json.ofNat c.refetchInterval),
    ("default_sort_order", .text c.defaultOrder.label)]

def loaded (c : Config) (path : String) : LogEntry :=
  .ofEvent .configLoaded [("path", path), ("data_dir", c.dataDirectory)]

end Config

end CardSearch
