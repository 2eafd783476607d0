import CardSearch.Binary64

/-!
# JSON values

Values of JSON and their text on one line without blanks. Members of an object stand in the
order of the list; `Json.ofMembers` puts them in ascending order of their names. A value is looked
into as one of a certain kind, if it is of that kind.
-/

namespace CardSearch

/-- A number: an integer of 64 bits, with or without a sign, or a finite double-precision one. -/
inductive JsonNumber
  | natural (n : UInt64)
  | negative (n : Int)
  | double (x : Binary64)
  deriving DecidableEq, Repr

/-- A JSON value. -/
inductive Json
  | null
  | bool (b : Bool)
  | number (n : JsonNumber)
  | text (s : String)
  | list (items : List Json)
  | object (members : List (String × Json))
  deriving Repr

namespace Json

instance : Inhabited Json := ⟨null⟩

/-- Numbers are written without an exponent from a hundred thousandth up to below ten to the
sixteenth. -/
def layout : NumberLayout := ⟨.even, -5, 15⟩

/-- How a character stands in a text between quotes. -/
def textChar (c : Char) : List Char :=
  match c with
  | '"' => ['\\', '"']
  | '\\' => ['\\', '\\']
  | '\x08' => ['\\', 'b']
  | '\x0c' => ['\\', 'f']
  | '\n' => ['\\', 'n']
  | '\r' => ['\\', 'r']
  | '\t' => ['\\', 't']
  | c =>
    if c.toNat < 32 then
      ['\\', 'u', '0', '0', Nat.digitChar (c.toNat / 16), Nat.digitChar (c.toNat % 16)]
    else [c]

def quote (s : String) : String := String.ofList ('"' :: s.toList.flatMap textChar ++ ['"'])

def numberText : JsonNumber → String
  | .natural n => toString n.toNat
  | .negative n => toString n
  | .double x => if x.isSpecial then "null" else layout.text x

mutual

def render : Json → String
  | null => "null"
  | bool true => "true"
  | bool false => "false"
  | number n => numberText n
  | text s => quote s
  | list items => "[" ++ ",".intercalate (renderItems items) ++ "]"
  | object members => "\x7b" ++ ",".intercalate (renderMembers members) ++ "\x7d"

def renderItems : List Json → List String
  | [] => []
  | item :: items => render item :: renderItems items

def renderMembers : List (String × Json) → List String
  | [] => []
  | (name, value) :: members => (quote name ++ ":" ++ render value) :: renderMembers members

end

/-- Members with one more in its place by name; a member of the same name is replaced. -/
def insertMember (name : String) (value : Json) : List (String × Json) → List (String × Json)
  | [] => [(name, value)]
  | m :: ms =>
    if name < m.1 then (name, value) :: m :: ms
    else if name = m.1 then (name, value) :: ms
    else m :: insertMember name value ms

/-- The object of a list of members, in ascending order of their names; of two members of one name
the later counts. -/
def ofMembers (members : List (String × Json)) : Json :=
  object (members.foldl (fun ms m => insertMember m.1 m.2 ms) [])

def ofNat (n : Nat) : Json := number (.natural (UInt64.ofNat n))

def ofInt (n : Int) : Json := if n < 0 then number (.negative n) else ofNat n.toNat

def ofTexts (texts : List String) : Json := list (texts.map text)

def member? : Json → String → Option Json
  | object members, name => (members.find? (·.1 == name)).map (·.2)
  | _, _ => none

def text? : Json → Option String
  | text s => some s
  | _ => none

def bool? : Json → Option Bool
  | bool b => some b
  | _ => none

def int? : Json → Option Int
  | number (.natural n) => some n.toNat
  | number (.negative n) => some n
  | _ => none

def nat? : Json → Option Nat
  | number (.natural n) => some n.toNat
  | _ => none

def double? : Json → Option Binary64
  | number (.natural n) => some (Binary64.ofInt n.toNat)
  | number (.negative n) => some (Binary64.ofInt n)
  | number (.double x) => some x
  | _ => none

def items? : Json → Option (List Json)
  | list items => some items
  | _ => none

def listOf? {α : Type} (item? : Json → Option α) : Json → Option (List α)
  | list items => items.mapM item?
  | _ => none

def pairOf? {α β : Type} (first? : Json → Option α) (second? : Json → Option β) :
    Json → Option (α × β)
  | list [a, b] =>
    match first? a, second? b with
    | some a, some b => some (a, b)
    | _, _ => none
  | _ => none

def optional? {α : Type} (value? : Json → Option α) : Json → Option (Option α)
  | null => some none
  | v => (value? v).map some

def field? {α : Type} (v : Json) (name : String) (value? : Json → Option α) : Option α :=
  (v.member? name).bind value?

def fieldD? {α : Type} (v : Json) (name : String) (default : α) (value? : Json → Option α) :
    Option α :=
  match v.member? name with
  | none | some null => some default
  | some w => value? w

end Json

end CardSearch
