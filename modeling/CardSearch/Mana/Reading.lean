import CardSearch.Mana.Cost
import CardSearch.Text.Characters

/-!
# Reading mana costs

A cost is written as a sequence of symbols, each a letter, a number or a group in braces. A group
lists one to three different alternatives between strokes. Reading takes as many symbols as
there are and stops before the first thing that is none.

A set of colours is typed as its letters or by the name of a guild, a shard, a wedge, a college or a
group of four.
-/

namespace CardSearch

/-- One alternative of a group: a number or a letter. -/
inductive ManaMark
  | number (n : Nat)
  | color (c : Color)
  | colorless
  | chosen
  | snow
  | phyrexian
  deriving DecidableEq, Repr

/-- A symbol as read, with the amount that it adds to a cost. -/
structure ManaUnit where
  symbol : ManaSymbol
  amount : UInt32 := 1
  deriving DecidableEq, Repr

namespace ManaMark

def ofLetter? (c : Char) : Option ManaMark :=
  match c.toUpper with
  | 'W' => some (color .white)
  | 'U' => some (color .blue)
  | 'B' => some (color .black)
  | 'R' => some (color .red)
  | 'G' => some (color .green)
  | 'C' => some colorless
  | 'X' => some chosen
  | 'S' => some snow
  | 'P' => some phyrexian
  | _ => none

/-- The mark at the start of a text and what follows it. All digits that stand together make one
number, which must fit 32 bits. -/
def scan : List Char → Option (ManaMark × List Char)
  | [] => none
  | c :: rest =>
    if c.isDigit then
      let digits := c :: rest.takeWhile Char.isDigit
      let value := Text.digitsValue digits
      if value < UInt32.size then some (number value, rest.dropWhile Char.isDigit) else none
    else (ofLetter? c).map (·, rest)

/-- Whether two marks cannot stand in one group: equal letters, or two numbers. -/
def clashes : ManaMark → ManaMark → Bool
  | number _, number _ => true
  | a, b => a == b

def color? : ManaMark → Option Color
  | color c => some c
  | _ => none

end ManaMark

namespace ManaUnit

/-- The symbol that a group of different marks stands for. Colours pair with each other, with the
number two, with colorless mana and with phyrexian mana; all else stands alone. -/
def ofMarks? (marks : List ManaMark) : Option ManaUnit :=
  match marks.filter (·.color?.isNone), marks.filterMap ManaMark.color? with
  | [], [c] => some ⟨.colored c, 1⟩
  | [], [a, b] => some ⟨.hybrid a b, 1⟩
  | [.number n], [] => some ⟨.generic, UInt32.ofNat n⟩
  | [.number n], [c] => if n = 2 then some ⟨.twoOr c, 1⟩ else none
  | [.chosen], [] => some ⟨.chosen, 1⟩
  | [.snow], [] => some ⟨.snow, 1⟩
  | [.colorless], [] => some ⟨.colorless, 1⟩
  | [.colorless], [c] => some ⟨.colorlessOr c, 1⟩
  | [.phyrexian], [c] => some ⟨.phyrexian c, 1⟩
  | [.phyrexian], [a, b] => some ⟨.hybridPhyrexian a b, 1⟩
  | _, _ => none

/-- The marks of a group after its opening brace, with at most `more` marks after the first, and
what follows the closing brace. -/
def scanMarks (more : Nat) (cs : List Char) : Option (List ManaMark × List Char) :=
  match ManaMark.scan cs with
  | some (mark, '\x7d' :: rest) => some ([mark], rest)
  | some (mark, '/' :: rest) =>
    match more with
    | 0 => none
    | more + 1 => (scanMarks more rest).map (fun (marks, rest) => (mark :: marks, rest))
  | _ => none

def distinct : List ManaMark → Bool
  | [] => true
  | m :: ms => ms.all (!m.clashes ·) && distinct ms

/-- The symbol at the start of a text and what follows it. -/
def scan : List Char → Option (ManaUnit × List Char)
  | '\x7b' :: cs =>
    match scanMarks 2 cs with
    | some (marks, rest) =>
      if distinct marks then (ofMarks? marks).map (·, rest) else none
    | none => none
  | cs =>
    match ManaMark.scan cs with
    | some (mark, rest) => (ofMarks? [mark]).map (·, rest)
    | none => none

theorem markScan_suffix {cs rest : List Char} {m : ManaMark}
    (h : ManaMark.scan cs = some (m, rest)) : ∃ c, c :: rest <:+ cs := by
  cases cs with
  | nil => simp [ManaMark.scan] at h
  | cons c cs =>
    simp only [ManaMark.scan] at h
    split at h
    next hdigit =>
      simp only [Option.ite_none_right_eq_some, Option.some.injEq, Prod.mk.injEq] at h
      obtain ⟨-, -, rfl⟩ := h
      have hsplit : cs.takeWhile Char.isDigit ++ cs.dropWhile Char.isDigit = cs :=
        List.takeWhile_append_dropWhile
      rcases List.eq_nil_or_concat (cs.takeWhile Char.isDigit) with hnil | ⟨init, last, hlast⟩
      · exact ⟨c, [], by rw [hnil] at hsplit; simp_all⟩
      · exact ⟨last, c :: init, by
          conv => rhs; rw [← hsplit, hlast]
          simp⟩
    next =>
      simp only [Option.map_eq_some_iff, Prod.mk.injEq] at h
      obtain ⟨_, -, -, rfl⟩ := h
      exact ⟨c, List.suffix_refl _⟩

theorem scanMarks_suffix {more : Nat} {cs rest : List Char} {ms : List ManaMark}
    (h : scanMarks more cs = some (ms, rest)) : ∃ c, c :: rest <:+ cs := by
  fun_induction scanMarks more cs generalizing ms with
  | case1 more cs mark after hscan =>
    obtain ⟨c, hc⟩ := markScan_suffix hscan
    cases h
    exact ⟨_, (List.suffix_cons _ _).trans hc⟩
  | case2 => cases h
  | case3 cs mark after hscan more ih =>
    obtain ⟨c, hc⟩ := markScan_suffix hscan
    obtain ⟨⟨marks, last⟩, hmarks, heq⟩ := Option.map_eq_some_iff.1 h
    cases heq
    obtain ⟨d, hd⟩ := ih hmarks
    exact ⟨d, hd.trans ((List.suffix_cons _ _).trans ((List.suffix_cons _ _).trans hc))⟩
  | case4 => cases h

/-- A symbol takes up at least one character. -/
theorem scan_suffix {cs rest : List Char} {u : ManaUnit} (h : scan cs = some (u, rest)) :
    ∃ c, c :: rest <:+ cs := by
  rw [scan.eq_def] at h
  split at h
  next cs =>
    match hm : scanMarks 2 cs with
    | none => simp [hm] at h
    | some (marks, after) =>
      obtain ⟨c, hc⟩ := scanMarks_suffix hm
      simp only [hm, Option.ite_none_right_eq_some, Option.map_eq_some_iff, Prod.mk.injEq] at h
      obtain ⟨-, _, -, -, rfl⟩ := h
      exact ⟨c, hc.trans (List.suffix_cons _ _)⟩
  next =>
    match hm : ManaMark.scan cs with
    | none => simp [hm] at h
    | some (mark, after) =>
      simp only [hm, Option.map_eq_some_iff, Prod.mk.injEq] at h
      obtain ⟨_, -, -, rfl⟩ := h
      exact markScan_suffix hm

theorem scan_length {cs rest : List Char} {u : ManaUnit} (h : scan cs = some (u, rest)) :
    rest.length < cs.length := by
  obtain ⟨c, hc⟩ := scan_suffix h
  have := hc.length_le
  simp only [List.length_cons] at this
  omega

/-- As many symbols as there are at the start of a text, and what follows them. -/
def scanAll (cs : List Char) : List ManaUnit × List Char :=
  match h : scan cs with
  | none => ([], cs)
  | some (unit, rest) =>
    have := scan_length h
    let tail := scanAll rest
    (unit :: tail.1, tail.2)
termination_by cs.length

theorem scanAll_suffix (cs : List Char) : (scanAll cs).2 <:+ cs := by
  fun_induction scanAll cs with
  | case1 => exact List.suffix_refl _
  | case2 cs unit rest h _ tail ih =>
    obtain ⟨c, hc⟩ := scan_suffix h
    exact ih.trans ((List.suffix_cons _ _).trans hc)

end ManaUnit

namespace ManaCost

def ofUnits (units : List ManaUnit) : ManaCost :=
  ofList (units.map (fun u => (u.symbol.key, u.amount)))

def scan (cs : List Char) : ManaCost × List Char :=
  let (units, rest) := ManaUnit.scanAll cs
  (ofUnits units, rest)

/-- The characters of a text from a byte position on; none when that lies inside a character or
beyond the end. -/
def fromByte? : Nat → List Char → Option (List Char)
  | 0, cs => some cs
  | _ + 1, [] => none
  | n + 1, c :: cs => if c.utf8Size ≤ n + 1 then fromByte? (n + 1 - c.utf8Size) cs else none

/-- The cost that starts at a byte position of a text, and the number of bytes it takes up. -/
def readAt (text : String) (start : Nat) : ManaCost × Nat :=
  match fromByte? start text.toList with
  | none => (∅, 0)
  | some cs =>
    let (cost, rest) := scan cs
    (cost, cs.length - rest.length)

def read (text : String) : ManaCost := (scan text.toList).1

end ManaCost

def namedColors : List (String × String) := [
  ("colorless", ""), ("c", ""),
  ("white", "w"), ("blue", "u"), ("black", "b"), ("red", "r"), ("green", "g"),
  ("azorius", "wu"), ("orzhov", "wb"), ("silverquill", "wb"), ("dimir", "ub"), ("izzet", "ur"),
  ("prismari", "ur"), ("rakdos", "br"), ("golgari", "bg"), ("witherbloom", "bg"), ("gruul", "rg"),
  ("boros", "rw"), ("lorehold", "rw"), ("selesnya", "gw"), ("simic", "gu"), ("quandrix", "gu"),
  ("bant", "gwu"), ("esper", "wub"), ("grixis", "ubr"), ("jund", "brg"), ("naya", "rgw"),
  ("abzan", "wbg"), ("jeskai", "urw"), ("sultai", "bgu"), ("mardu", "rwb"), ("temur", "gur"),
  ("artifice", "wubr"), ("chaos", "ubrg"), ("aggression", "brgw"), ("altruism", "rgwu"),
  ("growth", "gwub")]

def colorOfLetter? : Char → Option Color
  | 'w' => some .white
  | 'u' => some .blue
  | 'b' => some .black
  | 'r' => some .red
  | 'g' => some .green
  | _ => none

def ManaCost.ofColors (colors : List Color) : ManaCost :=
  ofList ((Color.all.filter (· ∈ colors)).map (fun c => ((ManaSymbol.colored c).key, 1)))

/-- The colours of a lower-case word, each once: those of a name, or of at least one letter. -/
def colorWord? (word : String) : Option ManaCost :=
  match namedColors.lookup word with
  | some letters => (letters.toList.mapM colorOfLetter?).map ManaCost.ofColors
  | none =>
    if word.isEmpty then none else (word.toList.mapM colorOfLetter?).map ManaCost.ofColors

end CardSearch
