import CardSearch.Condition
import CardSearch.Mana.Reading
import CardSearch.ReleaseDate
import CardSearch.Subset
import CardSearch.Text.Lowercase
import CardSearch.Text.Search

/-!
# Terms of a search text

A term is a keyword with an operator and a value, or else the name of a card. Where a value does
not suit its keyword the term is read as a name. Each reader takes a text and returns what it
read with the rest of the text.
-/

namespace CardSearch

/-- An operator: a comparison, or the colon, which means what its keyword makes of it. -/
inductive Operator
  | colon
  | sign (op : CompareOp)
  deriving DecidableEq, Repr

namespace Operator

def all : List Operator := colon :: [.eq, .ne, .lt, .gt, .le, .ge].map sign

def comparison (colonOp : CompareOp) : Operator → CompareOp
  | colon => colonOp
  | sign op => op

/-- Whether the operator states plain agreement. -/
def isEquality : Operator → Bool
  | colon => true
  | sign op => op == .eq

/-- The operator at the start of a text, the longest there is, and what follows it. -/
def scan? : List Char → Option (Operator × List Char)
  | ':' :: rest => some (colon, rest)
  | '=' :: rest => some (sign .eq, rest)
  | '!' :: '=' :: rest => some (sign .ne, rest)
  | '<' :: '=' :: rest => some (sign .le, rest)
  | '>' :: '=' :: rest => some (sign .ge, rest)
  | '<' :: rest => some (sign .lt, rest)
  | '>' :: rest => some (sign .gt, rest)
  | _ => none

theorem scan?_suffix {cs rest : List Char} {op : Operator} (h : scan? cs = some (op, rest)) :
    ∃ c, c :: rest <:+ cs := by
  unfold scan? at h
  split at h <;> simp only [Option.some.injEq, Prod.mk.injEq, reduceCtorEq] at h <;>
    obtain ⟨-, rfl⟩ := h
  all_goals first
    | exact ⟨_, List.suffix_refl _⟩
    | exact ⟨_, List.suffix_cons _ _⟩

end Operator

structure Term where
  condition : Condition
  properties : PropertySet
  deriving DecidableEq, Repr

namespace Term

def ofLeaf (l : Leaf) : Term := ⟨.leaf l, {l.property}⟩

def endsWord (c : Char) : Bool := c == ' ' || c == '\t' || c == ')'

/-- Whether no word goes on at the start of a text. -/
def atBoundary : List Char → Bool
  | [] => true
  | c :: _ => endsWord c

/-- The word at the start of a text, which may be empty, and the rest. -/
def word (cs : List Char) : List Char × List Char :=
  (cs.takeWhile (!endsWord ·), cs.dropWhile (!endsWord ·))

def untilQuote (quote : Char) : List Char → Option (List Char × List Char)
  | [] => none
  | c :: cs =>
    if c = quote then some ([], cs)
    else (untilQuote quote cs).map (fun (inside, rest) => (c :: inside, rest))

def quotation : List Char → Option (List Char × List Char)
  | [] => none
  | c :: cs => if c = '"' ∨ c = '\'' then untilQuote c cs else none

/-- A text in quotes, or else a word, and the rest. -/
def phrase (cs : List Char) : List Char × List Char := (quotation cs).getD (word cs)

/-- What a keyword asks about. -/
inductive Keyword
  | color | identity | mana | manaValue
  | date | year
  | rarity | set | format | reprinted | notReprinted
  | oracle | fullOracle | type
  | subset
  deriving DecidableEq, Repr

def Keyword.ofWord? : String → Option Keyword
  | "color" | "c" => some color
  | "identity" | "id" => some identity
  | "mana" | "m" => some mana
  | "manavalue" | "mv" | "cmc" => some manaValue
  | "date" => some date
  | "year" => some year
  | "rarity" | "r" => some rarity
  | "set" | "s" | "edition" | "e" => some set
  | "format" | "f" => some format
  | "is" => some reprinted
  | "not" => some notReprinted
  | "oracle" | "o" => some oracle
  | "fulloracle" | "fo" => some fullOracle
  | "type" | "t" => some type
  | "subset" | "ss" => some subset
  | _ => none

/-- The word before the first operator of a text, the operator and what follows it. Both the
operator and its value must come before the word ends. -/
def keyed? : List Char → Option (List Char × Operator × List Char)
  | [] => none
  | c :: cs =>
    if endsWord c then none
    else match Operator.scan? (c :: cs) with
      | some (op, rest) => if atBoundary rest then none else some ([], op, rest)
      | none => (keyed? cs).map (fun (keyword, op, rest) => (c :: keyword, op, rest))

def lowered (cs : List Char) : String := String.ofList (Text.lowerChars cs)

/-- A number of colours, or colours by their letters or name. -/
def colors? (op : Operator) (colonOp : CompareOp) (p : Property) (cs : List Char) :
    Option (Term × List Char) :=
  let (value, rest) := word cs
  match Text.readInt32? value with
  | some n => some (ofLeaf (.compare (op.comparison .eq) p (.int n)), rest)
  | none =>
    (colorWord? (lowered value)).map fun colors =>
      (ofLeaf (.compare (op.comparison colonOp) p (.cost colors)), rest)

/-- Exactly `n` digits at the start of a text, as a number, and the rest. -/
def digits? (n : Nat) (cs : List Char) : Option (Nat × List Char) :=
  let digits := cs.take n
  if digits.length = n ∧ digits.all Char.isDigit then some (Text.digitsValue digits, cs.drop n)
  else none

/-- A stroke and two digits at the start of a text, as a number, and the rest. -/
def datePart? : List Char → Option (Nat × List Char)
  | '-' :: cs => digits? 2 cs
  | _ => none

/-- A year of four digits, with a month and a day of two digits as far as they are given, and
the rest. -/
def dateDigits? (cs : List Char) : Option (Nat × Option Nat × Option Nat × List Char) :=
  (digits? 4 cs).map fun (year, rest) =>
    match datePart? rest with
    | none => (year, none, none, rest)
    | some (month, rest) =>
      match datePart? rest with
      | none => (year, some month, none, rest)
      | some (day, rest) => (year, some month, some day, rest)

def ofRelease (condition : Condition) : Term := ⟨condition, {.releasedAt}⟩

def date? (op : Operator) (cs : List Char) : Option (Term × List Char) :=
  match dateDigits? cs with
  | none => none
  | some (year, month, day, rest) =>
    (releaseCondition? (op.comparison .eq) year month day).map (ofRelease ·, rest)

def year? (op : Operator) (cs : List Char) : Option (Term × List Char) :=
  let (value, rest) := word cs
  match Text.readInt32? value with
  | none => none
  | some year =>
    (releaseCondition? (op.comparison .eq) year.toInt none none).map (ofRelease ·, rest)

def formatName : String → String
  | "edh" => "commander"
  | "os" => "oldschool"
  | "pd" => "penny"
  | "pedh" => "paupercommander"
  | "pm" => "premodern"
  | "s" => "standard"
  | word => word

def format? (op : Operator) (cs : List Char) : Option (Term × List Char) :=
  if op.isEquality then
    let (value, rest) := word cs
    some (ofLeaf (.compare .eq .formats (.text (formatName (lowered value)))), rest)
  else none

/-- Whether a version is a reprint; there is no other word to ask for. -/
def reprint? (op : Operator) (expected : Bool) (cs : List Char) : Option (Term × List Char) :=
  let (value, rest) := word cs
  if op.isEquality ∧ value = "reprint".toList then
    some (ofLeaf (.compare .eq .reprint (.bool expected)), rest)
  else none

def mana? (op : Operator) (cs : List Char) : Option (Term × List Char) :=
  let (cost, rest) := ManaCost.scan cs
  if cost.isEmpty then none
  else some (ofLeaf (.compare (op.comparison .ge) .cost (.cost cost)), rest)

def manaValue? (op : Operator) (cs : List Char) : Option (Term × List Char) :=
  let (value, rest) := word cs
  let value := Text.lowerChars value
  if op.isEquality ∧ value = "even".toList then some (ofLeaf (.parity .even .cmc), rest)
  else if op.isEquality ∧ value = "odd".toList then some (ofLeaf (.parity .odd .cmc), rest)
  else (Text.readInt32? value).map fun n =>
    (ofLeaf (.compare (op.comparison .eq) .cmc (.int n)), rest)

def part? (op : Operator) (p : Property) (cs : List Char) : Option (Term × List Char) :=
  let (value, rest) := phrase cs
  if op.isEquality ∧ value ≠ [] then some (ofLeaf (.contains p (lowered value)), rest) else none

def set? (op : Operator) (cs : List Char) : Option (Term × List Char) :=
  let (value, rest) := word cs
  some (ofLeaf (.compare (op.comparison .eq) .set (.text (lowered value))), rest)

def subset? (names : Dict Subset) (op : Operator) (cs : List Char) : Option (Term × List Char) :=
  let (value, rest) := phrase cs
  if op.isEquality ∧ value ≠ [] then
    (names.get? (String.ofList value)).map fun subset =>
      (⟨.subset subset.id, subset.query.properties⟩, rest)
  else none

/-- Whether a character is the small letter or one that differs from it in case only. The long s
is another form of s. -/
def sameLetter (letter c : Char) : Bool := c.toLower == letter || (letter == 's' && c == 'ſ')

/-- What follows a word at the start of a text, in any case. -/
def afterWord? : List Char → List Char → Option (List Char)
  | [], cs => some cs
  | _ :: _, [] => none
  | l :: ls, c :: cs => if sameLetter l c then afterWord? ls cs else none

/-- The words for rarities, the long ones before their first letters. -/
def rarityWords : List String :=
  ["common", "uncommon", "rare", "mythic", "special", "bonus", "c", "u", "r", "m", "s", "b"]

/-- A rarity by its name or first letter, to the end of the word. The first rarity word that fits
decides. -/
def rarity? (op : Operator) (cs : List Char) : Option (Term × List Char) :=
  match rarityWords.findSome? (fun w => afterWord? w.toList cs) with
  | none => none
  | some rest =>
    if atBoundary rest then
      (Rarity.ofWord? (lowered (cs.take (cs.length - rest.length)))).map fun rarity =>
        (ofLeaf (.compare (op.comparison .eq) .rarity (.rarity rarity)), rest)
    else none

/-- The term of a keyword, an operator and the value at the start of a text, and the rest. -/
def ofKeyword? (names : Dict Subset) (op : Operator) (cs : List Char) :
    Keyword → Option (Term × List Char)
  | .color => colors? op .ge .colors cs
  | .identity => colors? op .le .identity cs
  | .mana => mana? op cs
  | .manaValue => manaValue? op cs
  | .date => date? op cs
  | .year => year? op cs
  | .rarity => rarity? op cs
  | .set => set? op cs
  | .format => format? op cs
  | .reprinted => reprint? op true cs
  | .notReprinted => reprint? op false cs
  | .oracle => part? op .oracleSearch cs
  | .fullOracle => part? op .fullOracleSearch cs
  | .type => part? op .typeSearch cs
  | .subset => subset? names op cs

/-- The parts of a lower-case name between strokes, without loose characters. -/
def nameParts (value : List Char) : List (List Char) :=
  ((Text.splitAt Text.isStroke value).map Text.stripLoose).filter (!·.isEmpty)

/-- The terms of a loosely typed name: all parts must occur. A name without letters holds of every
card. -/
def ofNameParts (parts : List (List Char)) : Term :=
  let leaves := parts.map (fun part => Leaf.contains .nameInexact (String.ofList part))
  match Condition.collapse .all (leaves.map .leaf) with
  | none => ⟨.const true, ∅⟩
  | some condition => ⟨condition, {.nameInexact}⟩

/-- A name at the start of a text: in quotes as it is printed, otherwise loosely; and the rest. -/
def name (cs : List Char) : Term × List Char :=
  match quotation cs with
  | some (value, rest) => (ofLeaf (.contains .nameSearch (lowered value)), rest)
  | none =>
    let (value, rest) := word cs
    (ofNameParts (nameParts (Text.lowerChars value)), rest)

/-- The term of a keyword at the start of a text, if its value suits it, and the rest. -/
def keywordTerm? (names : Dict Subset) (cs : List Char) : Option (Term × List Char) :=
  match keyed? cs with
  | none => none
  | some (keyword, op, rest) =>
    match Keyword.ofWord? (lowered keyword) with
    | none => none
    | some keyword => ofKeyword? names op rest keyword

def scan (names : Dict Subset) (cs : List Char) : Term × List Char :=
  (keywordTerm? names cs).getD (name cs)

end Term

end CardSearch
