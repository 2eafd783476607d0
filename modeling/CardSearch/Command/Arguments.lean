/-!
# Command line arguments

A command has options with or without a value and at most one operand. A value follows its option
as the next argument or after an equals sign; what starts with a hyphen is never the value of the
option before it. After two hyphens alone every argument is an operand.
-/

namespace CardSearch

/-- Why arguments are no command; asking for help or for the version is among the reasons. -/
inductive UsageError
  | help
  | version
  | nothing
  | unknownSubcommand
  | unknownArgument
  | missingOperand
  | missingValue
  | unwantedValue
  | badValue
  | repeated
  deriving DecidableEq, Repr

def UsageError.label : UsageError → String
  | help => "DisplayHelp"
  | version => "DisplayVersion"
  | nothing => "DisplayHelpOnMissingArgumentOrSubcommand"
  | unknownSubcommand => "InvalidSubcommand"
  | unknownArgument => "UnknownArgument"
  | missingOperand => "MissingRequiredArgument"
  | missingValue => "InvalidValue"
  | unwantedValue => "TooManyValues"
  | badValue => "ValueValidation"
  | repeated => "ArgumentConflict"

/-- What an option takes: nothing, one text, one path, one number of 32 bits, or any number of
texts. A path must not be empty. -/
inductive OptionKind
  | flag
  | text
  | path
  | number
  | texts
  deriving DecidableEq, Repr

structure OptionSpec where
  name : String
  kind : OptionKind
  deriving DecidableEq, Repr

structure CommandSpec where
  options : List OptionSpec
  operand : Bool

structure Arguments where
  values : List (String × String) := []
  operand : Option String := none
  deriving DecidableEq, Repr

namespace Arguments

def number? (s : String) : Option Nat :=
  let value? (digits : List Char) : Option Nat :=
    if digits.isEmpty || !digits.all Char.isDigit then none
    else some (digits.foldl (fun n d => 10 * n + (d.toNat - '0'.toNat)) 0)
  let bounded? (n : Nat) : Option Nat := if n < 1 <<< 32 then some n else none
  match s.toList with
  | '+' :: digits => (value? digits).bind bounded?
  | '-' :: digits => (value? digits).bind (fun n => if n = 0 then some 0 else none)
  | digits => (value? digits).bind bounded?

def has (a : Arguments) (name : String) : Bool := a.values.any (·.1 == name)

def value? (a : Arguments) (name : String) : Option String := a.values.lookup name

def allValues (a : Arguments) (name : String) : List String :=
  (a.values.filter (·.1 == name)).map (·.2)

def put (a : Arguments) (o : OptionSpec) (value : String) : Except UsageError Arguments :=
  if o.kind ≠ .texts ∧ a.has o.name then .error .repeated
  else if o.kind = .path ∧ value = "" then .error .missingValue
  else if o.kind = .number ∧ (number? value).isNone then .error .badValue
  else .ok { a with values := a.values ++ [(o.name, value)] }

/-- An option that has been read but not taken in yet, with its value if that came. -/
abbrev Pending := Option (OptionSpec × Option String)

/-- Takes in the option that was read last. -/
def settle (a : Arguments) : Pending → Except UsageError Arguments
  | none => .ok a
  | some (_, none) => .error .missingValue
  | some (o, some value) => a.put o value

/-- The name of a long option and the value after its equals sign. -/
def splitLong (cs : List Char) : String × Option String :=
  let name := cs.takeWhile (· ≠ '=')
  (String.ofList name,
    match cs.drop name.length with
    | [] => none
    | _ :: value => some (String.ofList value))

/-- Takes in a long option; the option that was read last is taken in before it. -/
def putLong (spec : CommandSpec) (a : Arguments) (pending : Pending) (cs : List Char) :
    Except UsageError (Arguments × Pending) :=
  let (name, value?) := splitLong cs
  if name = "help" then
    match value? with
    | some _ => .error .unwantedValue
    | none => (a.settle pending).bind (fun _ => .error .help)
  else
    match spec.options.find? (·.name == name), value? with
    | none, _ => .error .unknownArgument
    | some o, some value => do
      if o.kind = .flag then .error .unwantedValue
      else
        let a ← a.settle pending
        return (← a.put o value, none)
    | some o, none => do
      let a ← a.settle pending
      if o.kind = .flag then return (← a.put o "", none) else return (a, some (o, none))

def putOperand (spec : CommandSpec) (a : Arguments) (pending : Pending) (arg : String) :
    Except UsageError (Arguments × Pending) :=
  if spec.operand && a.operand.isNone then do
    let a ← a.settle pending
    return ({ a with operand := some arg }, none)
  else .error .unknownArgument

/-- Reads the arguments that come after those taken in; `plain` says that two hyphens came before
them. -/
def readFrom (spec : CommandSpec) (a : Arguments) (pending : Pending) (plain : Bool) :
    List String → Except UsageError Arguments
  | [] => a.settle pending
  | arg :: args =>
    if plain then do
      let (a, pending) ← putOperand spec a pending arg
      readFrom spec a pending true args
    else
      match arg.toList, pending with
      | ['-', '-'], _ => readFrom spec a pending true args
      | '-' :: '-' :: cs, _ => do
        let (a, pending) ← putLong spec a pending cs
        readFrom spec a pending false args
      | '-' :: 'h' :: _, _ => (a.settle pending).bind (fun _ => .error .help)
      | '-' :: _ :: _, _ => .error .unknownArgument
      | _, some (o, none) => readFrom spec a (some (o, some arg)) false args
      | _, _ => do
        let (a, pending) ← putOperand spec a pending arg
        readFrom spec a pending false args

def read (spec : CommandSpec) (args : List String) : Except UsageError Arguments := do
  let a ← readFrom spec {} none false args
  if spec.operand && a.operand.isNone then .error .missingOperand else return a

end Arguments

inductive Command
  | query (config directory sort : Option String) (descending : Bool) (pool : Option String)
      (subsets : List String) (text : String)
  | parse (subsets : List String) (text : String)
  | bench (config directory : Option String) (iterations : Nat)
  deriving DecidableEq, Repr

namespace Command

def usage : String := "\n".intercalate [
  "cardquery query [--config PATH] [--data-dir PATH] [--sort ORDER] [--desc] [--pool POOL]",
  "                [--subset NAME=QUERY]... QUERY",
  "cardquery parse [--subset NAME=QUERY]... QUERY",
  "cardquery bench [--config PATH] [--data-dir PATH] [--iterations N]"]

inductive Subcommand
  | query
  | parse
  | bench
  deriving DecidableEq, Repr

def subcommand? : String → Option Subcommand
  | "query" => some .query
  | "parse" => some .parse
  | "bench" => some .bench
  | _ => none

def spec : Subcommand → CommandSpec
  | .query =>
    ⟨[⟨"config", .path⟩, ⟨"data-dir", .path⟩, ⟨"sort", .text⟩, ⟨"desc", .flag⟩, ⟨"pool", .text⟩,
      ⟨"subset", .texts⟩], true⟩
  | .parse => ⟨[⟨"subset", .texts⟩], true⟩
  | .bench => ⟨[⟨"config", .path⟩, ⟨"data-dir", .path⟩, ⟨"iterations", .number⟩], false⟩

def ofArguments (sub : Subcommand) (a : Arguments) : Command :=
  let text := a.operand.getD ""
  match sub with
  | .query => query (a.value? "config") (a.value? "data-dir") (a.value? "sort") (a.has "desc")
      (a.value? "pool") (a.allValues "subset") text
  | .parse => parse (a.allValues "subset") text
  | .bench => bench (a.value? "config") (a.value? "data-dir")
      (((a.value? "iterations").bind Arguments.number?).getD 10)

def helpOn : List String → UsageError
  | [] | ["help"] => .help
  | [name] => if (subcommand? name).isSome then .help else .unknownSubcommand
  | _ => .unknownSubcommand

/-- What is wrong with arguments that start with an option instead of a subcommand. -/
def optionError (cs : List Char) : UsageError :=
  match cs with
  | '-' :: cs =>
    let (name, value?) := Arguments.splitLong cs
    if name = "help" ∨ name = "version" then
      if value?.isSome then .unwantedValue else if name = "help" then .help else .version
    else .unknownArgument
  | 'h' :: _ => .help
  | 'V' :: _ => .version
  | _ => .unknownArgument

def read : List String → Except UsageError Command
  | [] => .error .nothing
  | "--" :: [] => .error .nothing
  | "--" :: name :: _ =>
    .error (if name = "help" ∨ (subcommand? name).isSome then .unknownArgument
      else .unknownSubcommand)
  | "help" :: args => .error (helpOn args)
  | name :: args =>
    match subcommand? name, name.toList with
    | some sub, _ => (ofArguments sub) <$> Arguments.read (spec sub) args
    | none, '-' :: c :: cs => .error (optionError (c :: cs))
    | none, _ => .error .unknownSubcommand

end Command

end CardSearch
