import CardSearch.Bytes
import CardSearch.Json.Number

/-!
# JSON texts as written

A form is a JSON text with its numbers as digits and its texts as they are escaped, before it is
known whether they stand for values. A text is taken apart into tokens, and the tokens are put
together by going along them with the brackets that are open.

The marks of a JSON text are ASCII, and a byte of a longer character is none of them. So a text in
bytes is read as if each byte were a character, and what stands between quotes is put together
afterwards. Bytes there that make no characters do not spoil the form: only a text that holds them
has no value.
-/

namespace CardSearch

/-- A piece of a text between quotes: a character, a code unit written by its number, or a byte
that belongs to no character. -/
inductive TextPiece
  | char (c : Char)
  | unit (n : Nat)
  | stray (b : UInt8)
  deriving DecidableEq, Repr

/-- A JSON text as written. -/
inductive Form
  | null
  | bool (b : Bool)
  | number (n : NumberForm)
  | text (pieces : List TextPiece)
  | list (items : List Form)
  | object (members : List (List TextPiece × Form))
  deriving Repr

namespace Form

instance : Inhabited Form := ⟨null⟩

/-- A token of a JSON text: a mark or a form without brackets. -/
inductive Token
  | mark (c : Char)
  | scalar (form : Form)
  deriving Repr

def hexValue? (c : Char) : Option Nat :=
  if c.isDigit then some (c.toNat - '0'.toNat)
  else if 'a' ≤ c ∧ c ≤ 'f' then some (c.toNat - 'a'.toNat + 10)
  else if 'A' ≤ c ∧ c ≤ 'F' then some (c.toNat - 'A'.toNat + 10)
  else none

/-- The character that a letter after a backslash stands for. -/
def escaped? : Char → Option Char
  | '"' => some '"'
  | '\\' => some '\\'
  | '/' => some '/'
  | 'b' => some '\x08'
  | 'f' => some '\x0c'
  | 'n' => some '\n'
  | 'r' => some '\r'
  | 't' => some '\t'
  | _ => none

/-- The code unit of four hexadecimal digits. -/
def unit? (a b c d : Char) : Option TextPiece := do
  return .unit (((← hexValue? a) * 16 + (← hexValue? b)) * 256 +
    (← hexValue? c) * 16 + (← hexValue? d))

/-- The rest of a text after its opening quote, with the pieces read so far, latest first, and what
follows the closing quote. -/
def scanText? (pieces : List TextPiece) : List Char → Option (List TextPiece × List Char)
  | [] => none
  | '"' :: rest => some (pieces.reverse, rest)
  | '\\' :: 'u' :: a :: b :: c :: d :: rest =>
    match unit? a b c d with
    | none => none
    | some piece => scanText? (piece :: pieces) rest
  | '\\' :: e :: rest =>
    match escaped? e with
    | none => none
    | some c => scanText? (.char c :: pieces) rest
  | c :: rest => if c.toNat < 32 ∨ c = '\\' then none else scanText? (.char c :: pieces) rest

def afterWord? : List Char → List Char → Option (List Char)
  | [], cs => some cs
  | w :: ws, c :: cs => if w = c then afterWord? ws cs else none
  | _ :: _, [] => none

def scalar? (cs : List Char) : Option (Form × List Char) :=
  match cs with
  | '"' :: cs => (scanText? [] cs).map (fun (pieces, rest) => (.text pieces, rest))
  | 'n' :: cs => (afterWord? ['u', 'l', 'l'] cs).map (.null, ·)
  | 't' :: cs => (afterWord? ['r', 'u', 'e'] cs).map (.bool true, ·)
  | 'f' :: cs => (afterWord? ['a', 'l', 's', 'e'] cs).map (.bool false, ·)
  | cs => (NumberForm.scan? cs).map (fun (n, rest) => (.number n, rest))

/-- Whether a character parts tokens without meaning anything. -/
def isBlank (c : Char) : Bool := c == ' ' || c == '\n' || c == '\t' || c == '\r'

/-- Whether a character is a token by itself. -/
def isMark (c : Char) : Bool := c ∈ ['[', ']', '\x7b', '\x7d', ',', ':']

/-- The tokens of a JSON text, with those read so far, latest first; none where no token stands.
The allowance `n` bounds the number of steps. -/
def tokens? (n : Nat) (read : List Token) (cs : List Char) : Option (List Token) :=
  match n, cs with
  | _, [] => some read.reverse
  | 0, _ => none
  | n + 1, c :: cs =>
    if isBlank c then tokens? n read cs
    else if isMark c then tokens? n (.mark c :: read) cs
    else match scalar? (c :: cs) with
      | none => none
      | some (form, rest) => tokens? n (.scalar form :: read) rest

/-- A bracket that is open, with what it holds so far, latest first; in an object, the name of the
member whose value comes next. -/
inductive Bracket
  | list (items : List Form)
  | object (members : List (List TextPiece × Form)) (name : List TextPiece)

/-- What may come next in a text. -/
inductive Expected
  | value
  | valueOrEnd
  | name
  | nameOrEnd
  | colon
  | separator
  | nothing (form : Form)

/-- Where a reader of tokens stands: what may come next, and the open brackets. -/
structure Reader where
  expected : Expected := .value
  brackets : List Bracket := []

namespace Reader

def complete (r : Reader) (form : Form) : Reader :=
  match r.brackets with
  | [] => ⟨.nothing form, []⟩
  | .list items :: outer => ⟨.separator, .list (form :: items) :: outer⟩
  | .object members name :: outer => ⟨.separator, .object ((name, form) :: members) name :: outer⟩

/-- Takes in a token; none where it may not come. -/
def step? (r : Reader) (t : Token) : Option Reader :=
  match r.expected, t, r.brackets with
  | .value, .scalar form, _ | .valueOrEnd, .scalar form, _ => some (r.complete form)
  | .value, .mark '[', bs | .valueOrEnd, .mark '[', bs => some ⟨.valueOrEnd, .list [] :: bs⟩
  | .value, .mark '\x7b', bs | .valueOrEnd, .mark '\x7b', bs =>
    some ⟨.nameOrEnd, .object [] [] :: bs⟩
  | .valueOrEnd, .mark ']', .list items :: bs | .separator, .mark ']', .list items :: bs =>
    some (complete ⟨.value, bs⟩ (.list items.reverse))
  | .nameOrEnd, .mark '\x7d', .object members _ :: bs
  | .separator, .mark '\x7d', .object members _ :: bs =>
    some (complete ⟨.value, bs⟩ (.object members.reverse))
  | .name, .scalar (.text name), .object members _ :: bs
  | .nameOrEnd, .scalar (.text name), .object members _ :: bs =>
    some ⟨.colon, .object members name :: bs⟩
  | .colon, .mark ':', bs => some ⟨.value, bs⟩
  | .separator, .mark ',', .list items :: bs => some ⟨.value, .list items :: bs⟩
  | .separator, .mark ',', .object members name :: bs => some ⟨.name, .object members name :: bs⟩
  | _, _, _ => none

def run? (r : Reader) : List Token → Option Form
  | [] => match r.expected with
    | .nothing form => some form
    | _ => none
  | t :: ts => match r.step? t with
    | none => none
    | some r => r.run? ts

end Reader

def parse? (cs : List Char) : Option Form :=
  match tokens? cs.length [] cs with
  | none => none
  | some ts => Reader.run? {} ts

/-- The text of a list of pieces. A half of a surrogate pair without its other half stands for no
character, and neither does a stray byte. -/
def textOf? : List TextPiece → Option (List Char)
  | [] => some []
  | .char c :: rest => (textOf? rest).map (c :: ·)
  | .unit high :: .unit low :: rest =>
    if 0xd800 ≤ high ∧ high < 0xdc00 then
      if 0xdc00 ≤ low ∧ low < 0xe000 then
        (textOf? rest).map (Char.ofNat (0x10000 + (high - 0xd800) * 0x400 + (low - 0xdc00)) :: ·)
      else none
    else if 0xdc00 ≤ high ∧ high < 0xe000 then none
    else (textOf? (.unit low :: rest)).map (Char.ofNat high :: ·)
  | .unit n :: rest =>
    if 0xd800 ≤ n ∧ n < 0xe000 then none else (textOf? rest).map (Char.ofNat n :: ·)
  | .stray _ :: _ => none

def stringOf? (pieces : List TextPiece) : Option String := (textOf? pieces).map String.ofList

mutual

/-- How many brackets are open at most at one time. -/
def depth : Form → Nat
  | list items => depthItems items + 1
  | object members => depthMembers members + 1
  | _ => 0

def depthItems : List Form → Nat
  | [] => 0
  | item :: items => max (depth item) (depthItems items)

def depthMembers : List (List TextPiece × Form) → Nat
  | [] => 0
  | (_, value) :: members => max (depth value) (depthMembers members)

end

mutual

/-- The value of a form; none where a number is too large or a text is none. -/
def value? : Form → Option Json
  | null => some .null
  | bool b => some (.bool b)
  | number n => n.value?.map .number
  | text pieces => (stringOf? pieces).map .text
  | list items => (valueItems? items).map .list
  | object members => (valueMembers? members).map Json.ofMembers

def valueItems? : List Form → Option (List Json)
  | [] => some []
  | item :: items =>
    match value? item, valueItems? items with
    | some item, some items => some (item :: items)
    | _, _ => none

def valueMembers? : List (List TextPiece × Form) → Option (List (String × Json))
  | [] => some []
  | (name, value) :: members =>
    match stringOf? name, value? value, valueMembers? members with
    | some name, some value, some members => some ((name, value) :: members)
    | _, _, _ => none

end

/-- How deep brackets may be nested in a text that is read as a value. -/
def depthLimit : Nat := 127

end Form

def Json.parse? (cs : List Char) : Option Json :=
  match Form.parse? cs with
  | none => none
  | some form => if form.depth ≤ Form.depthLimit then form.value? else none

namespace TextPiece

def ofBytes (bytes : List UInt8) : List TextPiece :=
  match Bytes.text? bytes with
  | some s => s.toList.map .char
  | none => bytes.map .stray

/-- Puts characters together from pieces that stand for a byte each, where `before` are the bytes
just before them, latest first. -/
def join (before : List UInt8) : List TextPiece → List TextPiece
  | [] => ofBytes before.reverse
  | .char c :: rest => join (UInt8.ofNat c.toNat :: before) rest
  | .unit n :: rest => ofBytes before.reverse ++ .unit n :: join [] rest
  | .stray b :: rest => ofBytes before.reverse ++ .stray b :: join [] rest

end TextPiece

namespace Form

mutual

def join : Form → Form
  | text pieces => text (TextPiece.join [] pieces)
  | list items => list (joinItems items)
  | object members => object (joinMembers members)
  | form => form

def joinItems : List Form → List Form
  | [] => []
  | item :: items => join item :: joinItems items

def joinMembers : List (List TextPiece × Form) → List (List TextPiece × Form)
  | [] => []
  | (name, value) :: members => (TextPiece.join [] name, join value) :: joinMembers members

end

def ofBytes? (bytes : List UInt8) : Option Form :=
  (parse? (bytes.map (fun b => Char.ofNat b.toNat))).map join

end Form

end CardSearch
