import CardSearch.Proofs.Mana.Grammar
import CardSearch.Proofs.Query.Boundaries
import CardSearch.Proofs.Text.Slices

/-!
# A reader that moves over a text

A reader stands at a place of a text, counted in bytes, and sees what is left from there on. It goes
on by characters, operators, words, quotations and values, and back to where a term starts when the
value does not suit its keyword. Nothing but the number of its place says where it is, and nothing is
seen from within a character or from beyond the end. Still it reads the terms that stand in the text,
and it never comes to such a place.
-/

namespace CardSearch

/-- Where a reader of a text stands, in bytes from the start, where it stood before, latest first, and
the properties of the terms that it has read. -/
structure TextReader where
  place : Nat := 0
  past : List Nat := []
  properties : PropertySet := ∅

/-- How many bytes an operator takes up. -/
def Operator.size : Operator → Nat
  | sign .ne | sign .le | sign .ge => 2
  | _ => 1

namespace Term.Keyword

/-- How far the value of a keyword goes: over a word, over a quotation or a word, or as far as a date,
a cost or a rarity does. -/
inductive Extent
  | word | phrase | date | mana | rarity
  deriving DecidableEq

def extent : Keyword → Extent
  | color | identity | manaValue | year | set | format | reprinted | notReprinted => .word
  | oracle | fullOracle | type | subset => .phrase
  | date => .date
  | mana => .mana
  | rarity => .rarity

/-- Whether a keyword goes with operators of plain agreement only. -/
def needsEquality : Keyword → Bool
  | format | reprinted | notReprinted | oracle | fullOracle | type | subset => true
  | _ => false

end Term.Keyword

namespace TextReader

open Term

def moveTo (r : TextReader) (place : Nat) : TextReader :=
  { r with place, past := r.place :: r.past }

def moveBy (r : TextReader) (n : Nat) : TextReader := r.moveTo (r.place + n)

section Moves

variable (text : String)

/-- What is left of the text. Nothing is seen from within a character or from beyond the end. -/
def left? (r : TextReader) : Option (List Char) := ManaCost.fromByte? r.place text.toList

def between? (start stop : Nat) : Option (List Char) := do
  let cs ← ManaCost.fromByte? start text.toList
  let rest ← ManaCost.fromByte? stop text.toList
  if start ≤ stop then some (cs.take (cs.length - rest.length)) else none

/-- Goes on by one character, unless the text ends. -/
def advance (r : TextReader) : Option TextReader := do
  match ← r.left? text with
  | [] => return r
  | c :: _ => return r.moveBy c.utf8Size

def toWordEnd (r : TextReader) : Option TextReader := do
  if atBoundary (← r.left? text) then return r
  (← r.advance text) |>.toWordEnd
partial_fixpoint

/-- Goes behind a quotation that starts here and is closed, or else to the end of the word. -/
def toPhraseEnd (r : TextReader) : Option TextReader := do
  match ← r.left? text with
  | [] => r.toWordEnd text
  | c :: _ =>
    if c = '"' ∨ c = '\'' then
      match untilQuote c (← ManaCost.fromByte? (r.place + 1) text.toList) with
      | some (value, _) => return r.moveTo (r.place + 1 + Text.byteLength value + 1)
      | none => r.toWordEnd text
    else r.toWordEnd text

/-- Looks for an operator in the word that started at a place and goes behind it. Where there is none
or no value follows it goes back to the start. -/
def toOperator (start : Nat) (r : TextReader) :
    Option (Option (List Char × Operator) × TextReader) := do
  let cs ← r.left? text
  if atBoundary cs then return (none, r.moveTo start)
  match Operator.scan? cs with
  | some (op, _) =>
    let after := r.moveBy op.size
    if atBoundary (← after.left? text) then return (none, after.moveTo start)
    return (some (← between? text start r.place, op), after)
  | none => (← r.advance text) |>.toOperator start
partial_fixpoint

/-- Goes behind the value of a keyword. Words and quotations are gone over whether or not they suit the
keyword; a rarity, only to go back where the word goes on; dates and costs, if they suit it. -/
def toValueEnd (op : Operator) (k : Keyword) (r : TextReader) : Option TextReader := do
  if k.needsEquality && !op.isEquality then return r
  match k.extent with
  | .word => r.toWordEnd text
  | .phrase => r.toPhraseEnd text
  | .date =>
    let cs ← r.left? text
    match date? op cs with
    | some (_, rest) => return r.moveBy (Text.byteLength cs - Text.byteLength rest)
    | none => return r
  | .mana =>
    let (cost, size) := ManaCost.readAt text r.place
    if cost.isEmpty then return r else return r.moveBy size
  | .rarity =>
    let cs ← r.left? text
    match rarityWords.findSome? (fun w => afterWord? w.toList cs) with
    | none => return r
    | some rest =>
      let after := r.moveBy (Text.byteLength cs - Text.byteLength rest)
      if atBoundary (← after.left? text) then return after else return after.moveTo r.place

variable (names : Dict Subset)

/-- Reads the value of a keyword, unless it does not suit the keyword. -/
def value (op : Operator) (k : Keyword) (r : TextReader) : Option (Option Term × TextReader) := do
  let cs ← r.left? text
  return ((ofKeyword? names op cs k).map (·.1), ← r.toValueEnd text op k)

def name (r : TextReader) : Option (Term × TextReader) := do
  let cs ← r.left? text
  return ((Term.name cs).1, ← r.toPhraseEnd text)

/-- Reads a keyword with its value, or else, from where the keyword started, a name. -/
def term (r : TextReader) : Option (Term × TextReader) := do
  match ← r.toOperator text r.place with
  | (none, last) => last.name text
  | (some (keyword, op), after) =>
    match Keyword.ofWord? (lowered keyword) with
    | none => (after.moveTo r.place).name text
    | some k =>
      match ← after.value text names op k with
      | (some t, last) => return (t, last)
      | (none, last) => (last.moveTo r.place).name text

end Moves

section Places

variable {text as bs cs ds : List Char} {a b : Nat}

theorem byteLength_eq (cs : List Char) :
    Text.byteLength cs = (String.ofList cs).utf8ByteSize := by
  induction cs with
  | nil => rfl
  | cons c cs ih => rw [Text.byteLength_cons, ManaCost.utf8ByteSize_ofList_cons, ih]

theorem seen_iff : ManaCost.fromByte? a text = some as ↔
    ∃ before, text = before ++ as ∧ Text.byteLength before = a := by
  simp only [ManaCost.fromByte?_eq_some_iff, byteLength_eq]

/-- Behind some characters the others are seen. -/
theorem seen_add (h : ManaCost.fromByte? a text = some (cs ++ ds)) :
    ManaCost.fromByte? (a + Text.byteLength cs) text = some ds := by
  obtain ⟨before, rfl, rfl⟩ := seen_iff.1 h
  exact seen_iff.2 ⟨before ++ cs, by rw [List.append_assoc], Text.byteLength_append before cs⟩

theorem exists_between (ha : ManaCost.fromByte? a text = some as)
    (hb : ManaCost.fromByte? b text = some bs) (h : bs.length ≤ as.length) :
    ∃ cs, as = cs ++ bs ∧ b = a + Text.byteLength cs := by
  obtain ⟨before, rfl, rfl⟩ := seen_iff.1 ha
  obtain ⟨before', htext, rfl⟩ := seen_iff.1 hb
  obtain ⟨cs, rfl⟩ := List.suffix_of_suffix_length_le ⟨before', htext.symm⟩
    (List.suffix_append before as) h
  rw [← List.append_assoc] at htext
  rw [← List.append_cancel_right htext]
  exact ⟨cs, rfl, Text.byteLength_append before cs⟩

/-- The fewer characters are left, the later is the place. -/
theorem lt_of_length_lt (ha : ManaCost.fromByte? a text = some as)
    (hb : ManaCost.fromByte? b text = some bs) (h : bs.length < as.length) : a < b := by
  obtain ⟨cs, rfl, rfl⟩ := exists_between ha hb (Nat.le_of_lt h)
  cases cs with
  | nil => exact absurd h (Nat.lt_irrefl _)
  | cons c cs =>
    have := c.utf8Size_pos
    rw [Text.byteLength_cons]
    omega

end Places

/-- The reader stands where the characters are left of the text, and it never stood where nothing is
seen. -/
structure At (text : String) (cs : List Char) (properties : PropertySet) (r : TextReader) :
    Prop where
  left?_eq : r.left? text = some cs
  seen (place : Nat) (h : place ∈ r.past) : ∃ ds, ManaCost.fromByte? place text.toList = some ds
  properties_eq : r.properties = properties

variable {text : String} {cs ds rest : List Char} {properties : PropertySet} {r r' : TextReader}

theorem at_start (text : String) : At text text.toList ∅ {} :=
  ⟨seen_iff.2 ⟨[], rfl, rfl⟩, nofun, rfl⟩

namespace At

theorem moveTo (h : r.At text cs properties) {place : Nat}
    (hplace : ManaCost.fromByte? place text.toList = some ds) :
    (r.moveTo place).At text ds properties where
  left?_eq := hplace
  seen place' hplace' := by
    rcases List.mem_cons.1 hplace' with rfl | hpast
    · exact ⟨cs, h.left?_eq⟩
    · exact h.seen place' hpast
  properties_eq := h.properties_eq

theorem moveBy (h : r.At text (cs ++ ds) properties) :
    (r.moveBy (Text.byteLength cs)).At text ds properties :=
  h.moveTo (seen_add h.left?_eq)

theorem advance {c : Char} (h : r.At text (c :: cs) properties) :
    ∃ last, r.advance text = some last ∧ last.At text cs properties := by
  have hmoved : (r.moveBy (Text.byteLength [c])).At text cs properties := moveBy h
  refine ⟨r.moveBy c.utf8Size, ?_, hmoved⟩
  rw [TextReader.advance, h.left?_eq]
  rfl

theorem between? (h : r.At text (cs ++ ds) properties) (h' : r'.At text ds properties) :
    TextReader.between? text r.place r'.place = some cs := by
  obtain ⟨cs', heq, hplace⟩ := exists_between h.left?_eq h'.left?_eq (by simp)
  have hlength : (cs ++ ds).length - ds.length = cs.length := by simp
  have hle : r.place ≤ r'.place := by omega
  have hstart : ManaCost.fromByte? r.place text.toList = some (cs ++ ds) := h.left?_eq
  have hstop : ManaCost.fromByte? r'.place text.toList = some ds := h'.left?_eq
  simp only [TextReader.between?, hstart, hstop, Option.bind_eq_bind, Option.bind_some, if_pos hle,
    hlength, List.take_left]

theorem toWordEnd (h : r.At text cs properties) :
    ∃ last, r.toWordEnd text = some last ∧ last.At text (word cs).2 properties := by
  induction cs generalizing r with
  | nil =>
    refine ⟨r, ?_, h⟩
    rw [TextReader.toWordEnd, h.left?_eq]
    rfl
  | cons c cs ih =>
    rw [TextReader.toWordEnd, h.left?_eq]
    cases hc : endsWord c with
    | true =>
      refine ⟨r, ?_, ?_⟩
      · simp [atBoundary, hc]
      · simpa [word, hc] using h
    | false =>
      obtain ⟨next, hnext, hat⟩ := h.advance
      obtain ⟨last, hlast, hend⟩ := ih hat
      refine ⟨last, ?_, ?_⟩
      · simpa [atBoundary, hc, hnext] using hlast
      · simpa [word, hc] using hend

/-- What stands before a quote and what follows it make up the text. -/
theorem eq_of_untilQuote {quote : Char} {value : List Char}
    (h : untilQuote quote cs = some (value, rest)) : cs = value ++ quote :: rest := by
  induction cs generalizing value with
  | nil => cases h
  | cons c cs ih =>
    rw [untilQuote] at h
    split at h
    next hc =>
      cases h
      rw [hc]
      rfl
    next =>
      obtain ⟨⟨inside, rest'⟩, hinside, heq⟩ := Option.map_eq_some_iff.1 h
      cases heq
      rw [ih hinside]
      rfl

theorem toPhraseEnd (h : r.At text cs properties) :
    ∃ last, r.toPhraseEnd text = some last ∧ last.At text (phrase cs).2 properties := by
  obtain ⟨last, hword, hlast⟩ := h.toWordEnd
  rw [TextReader.toPhraseEnd, h.left?_eq, phrase]
  cases cs with
  | nil => exact ⟨last, hword, hlast⟩
  | cons c cs =>
    by_cases hc : c = '"' ∨ c = '\''
    · have hsize : c.utf8Size = 1 := by rcases hc with rfl | rfl <;> rfl
      have hbehind : ManaCost.fromByte? (r.place + 1) text.toList = some cs := by
        have hadd : ManaCost.fromByte? (r.place + Text.byteLength [c]) text.toList = some cs :=
          seen_add h.left?_eq
        rwa [Text.byteLength_cons, hsize] at hadd
      simp only [Option.bind_eq_bind, Option.bind_some, if_pos hc, hbehind, quotation]
      cases hquote : untilQuote c cs with
      | none => exact ⟨last, hword, hlast⟩
      | some found =>
        obtain ⟨value, rest⟩ := found
        rw [eq_of_untilQuote hquote] at hbehind
        have hquoted : ManaCost.fromByte? (r.place + 1 + Text.byteLength value) text.toList =
            some ([c] ++ rest) := seen_add hbehind
        have hclosed := seen_add hquoted
        rw [Text.byteLength_cons, hsize] at hclosed
        exact ⟨_, rfl, h.moveTo hclosed⟩
    · simp only [Option.bind_eq_bind, Option.bind_some, if_neg hc, quotation, Option.getD_none]
      exact ⟨last, hword, hlast⟩

private theorem exists_operator {op : Operator} (h : Operator.scan? cs = some (op, rest)) :
    ∃ token, cs = token ++ rest ∧ Text.byteLength token = op.size := by
  revert h
  fun_cases Operator.scan? cs <;> rintro ⟨⟩
  exacts [⟨[':'], rfl, rfl⟩, ⟨['='], rfl, rfl⟩, ⟨['!', '='], rfl, rfl⟩, ⟨['<', '='], rfl, rfl⟩,
    ⟨['>', '='], rfl, rfl⟩, ⟨['<'], rfl, rfl⟩, ⟨['>'], rfl, rfl⟩]

/-- The keyword is what stands between the place where the word starts and the operator. -/
theorem toOperator {start : TextReader} {front : List Char}
    (hstart : start.At text (front ++ cs) properties) (h : r.At text cs properties) :
    ∃ last, TextReader.toOperator text start.place r =
        some ((keyed? cs).map fun (keyword, op, _) => (front ++ keyword, op), last) ∧
      last.At text ((keyed? cs).elim (front ++ cs) (·.2.2)) properties := by
  induction cs generalizing front r with
  | nil =>
    refine ⟨r.moveTo start.place, ?_, h.moveTo hstart.left?_eq⟩
    rw [TextReader.toOperator, h.left?_eq]
    rfl
  | cons c cs ih =>
    rw [TextReader.toOperator, h.left?_eq]
    cases hc : endsWord c with
    | true =>
      have hkeyed : keyed? (c :: cs) = none := if_pos hc
      have hword : atBoundary (c :: cs) = true := hc
      rw [hkeyed]
      exact ⟨r.moveTo start.place, by simp [hword], h.moveTo hstart.left?_eq⟩
    | false =>
      have hword : atBoundary (c :: cs) = false := hc
      cases hscan : Operator.scan? (c :: cs) with
      | some scanned =>
        obtain ⟨op, rest⟩ := scanned
        obtain ⟨token, htoken, hsize⟩ := exists_operator hscan
        have hafter : (r.moveBy op.size).At text rest properties := hsize ▸ (htoken ▸ h).moveBy
        cases hrest : atBoundary rest with
        | true =>
          have hkeyed : keyed? (c :: cs) = none := by simp [keyed?, hc, hscan, hrest]
          refine ⟨(r.moveBy op.size).moveTo start.place, ?_, ?_⟩
          · simp [hkeyed, hword, hscan, hafter.left?_eq, hrest]
          · rw [hkeyed]
            exact hafter.moveTo hstart.left?_eq
        | false =>
          have hkeyed : keyed? (c :: cs) = some ([], op, rest) := by
            simp [keyed?, hc, hscan, hrest]
          refine ⟨r.moveBy op.size, ?_, ?_⟩
          · simp [hkeyed, hword, hscan, hafter.left?_eq, hrest, hstart.between? h]
          · rw [hkeyed]
            exact hafter
      | none =>
        have hkeyed : keyed? (c :: cs) =
            (keyed? cs).map fun (keyword, op, rest) => (c :: keyword, op, rest) := by
          simp [keyed?, hc, hscan]
        obtain ⟨next, hnext, hat⟩ := h.advance
        have hfront : front ++ c :: cs = (front ++ [c]) ++ cs := by simp
        obtain ⟨last, hlast, hend⟩ := ih (hfront ▸ hstart) hat
        refine ⟨last, ?_, ?_⟩
        · simp [hkeyed, hword, hscan, hnext, hlast, Function.comp_def]
        · rw [hkeyed]
          cases hrest : keyed? cs <;> simpa [hrest] using hend

/-- The bytes that a suffix is short of lead to it. -/
theorem moveBy_sub (h : r.At text cs properties) (hrest : rest <:+ cs) :
    (r.moveBy (Text.byteLength cs - Text.byteLength rest)).At text rest properties := by
  obtain ⟨front, rfl⟩ := hrest
  rw [Text.byteLength_append, Nat.add_sub_cancel]
  exact h.moveBy

/-- The symbols of a cost take up one byte for each character. -/
theorem moveBy_readAt (h : r.At text cs properties) :
    ManaCost.readAt text r.place = ((ManaCost.scan cs).1, cs.length - (ManaCost.scan cs).2.length) ∧
      (r.moveBy (cs.length - (ManaCost.scan cs).2.length)).At text (ManaCost.scan cs).2
        properties := by
  have hleft : ManaCost.fromByte? r.place text.toList = some cs := h.left?_eq
  obtain ⟨ds, hcs, hsymbols, -⟩ := ManaUnit.exists_symbols cs
  have hsize : cs.length - (ManaCost.scan cs).2.length = Text.byteLength ds := by
    have hlength := congrArg List.length hcs
    rw [List.length_append] at hlength
    rw [byteLength_eq, ManaCost.utf8ByteSize_ofList hsymbols.utf8Size]
    exact Nat.sub_eq_of_eq_add hlength
  refine ⟨by rw [ManaCost.readAt, hleft], ?_⟩
  rw [hsize]
  exact moveBy (hcs ▸ h)

end At

end TextReader

namespace Term

variable {names : Dict Subset} {op : Operator} {k : Keyword} {cs rest : List Char} {t : Term}

private theorem ofKeyword?_of_not_isEquality (hk : k.needsEquality = true)
    (hop : op.isEquality = false) : ofKeyword? names op cs k = none := by
  cases k <;> first
    | exact absurd hk Bool.false_ne_true
    | simp [ofKeyword?, format?, reprint?, part?, subset?, hop]

/-- A value that goes over a word ends with it. -/
theorem eq_of_extent_word (hk : k.extent = .word) (h : ofKeyword? names op cs k = some (t, rest)) :
    rest = (word cs).2 := by
  cases k <;> cases hk <;> simp only [ofKeyword?] at h
  case color | identity =>
    simp only [colors?] at h
    split at h
    · cases h
      rfl
    · obtain ⟨_, -, heq⟩ := Option.map_eq_some_iff.1 h
      cases heq
      rfl
  case manaValue =>
    simp only [manaValue?] at h
    split at h
    · cases h
      rfl
    · split at h
      · cases h
        rfl
      · obtain ⟨_, -, heq⟩ := Option.map_eq_some_iff.1 h
        cases heq
        rfl
  case year =>
    simp only [year?] at h
    split at h
    · cases h
    · obtain ⟨_, -, heq⟩ := Option.map_eq_some_iff.1 h
      cases heq
      rfl
  case set =>
    cases h
    rfl
  case format | reprinted | notReprinted =>
    simp only [format?, reprint?] at h
    obtain ⟨-, heq⟩ := Option.ite_none_right_eq_some.1 h
    cases heq
    rfl

/-- A value that goes over a quotation or a word ends with it. -/
theorem eq_of_extent_phrase (hk : k.extent = .phrase)
    (h : ofKeyword? names op cs k = some (t, rest)) : rest = (phrase cs).2 := by
  cases k <;> cases hk <;> simp only [ofKeyword?, part?, subset?] at h <;>
    obtain ⟨-, heq⟩ := Option.ite_none_right_eq_some.1 h
  case subset =>
    obtain ⟨_, -, heq⟩ := Option.map_eq_some_iff.1 heq
    cases heq
    rfl
  case oracle | fullOracle | type =>
    cases heq
    rfl

end Term

namespace TextReader

open Term

variable {text : String} {cs : List Char} {properties : PropertySet} {r : TextReader}

/-- Whatever the value, the reader comes to an end with it, and if it suits the keyword, then to its
end. -/
theorem At.toValueEnd (h : r.At text cs properties) (names : Dict Subset) (op : Operator)
    (k : Keyword) :
    ∃ last ds, r.toValueEnd text op k = some last ∧ last.At text ds properties ∧
      ∀ t rest, ofKeyword? names op cs k = some (t, rest) → rest = ds := by
  rw [TextReader.toValueEnd]
  cases hequality : k.needsEquality && !op.isEquality with
  | true =>
    rw [Bool.and_eq_true, Bool.not_eq_true'] at hequality
    refine ⟨r, cs, rfl, h, fun t rest ht => ?_⟩
    rw [ofKeyword?_of_not_isEquality hequality.1 hequality.2] at ht
    cases ht
  | false =>
    rw [if_neg Bool.false_ne_true]
    cases hk : k.extent with
    | word =>
      obtain ⟨last, hlast, hend⟩ := h.toWordEnd
      exact ⟨last, _, hlast, hend, fun t rest => eq_of_extent_word hk⟩
    | phrase =>
      obtain ⟨last, hlast, hend⟩ := h.toPhraseEnd
      exact ⟨last, _, hlast, hend, fun t rest => eq_of_extent_phrase hk⟩
    | date =>
      obtain rfl : k = .date := by cases k <;> first | rfl | cases hk
      cases hdate : date? op cs with
      | none => exact ⟨r, cs, by simp [h.left?_eq, hdate], h, by simp [ofKeyword?, hdate]⟩
      | some read =>
        obtain ⟨t, rest⟩ := read
        have hvalue : ofKeyword? names op cs .date = some (t, rest) := hdate
        have hrest : rest <:+ cs := ofKeyword?_suffix hvalue
        exact ⟨_, rest, by simp [h.left?_eq, hdate], h.moveBy_sub hrest, by simp [ofKeyword?, hdate]⟩
    | mana =>
      obtain rfl : k = .mana := by cases k <;> first | rfl | cases hk
      obtain ⟨hread, hend⟩ := h.moveBy_readAt
      cases hempty : (ManaCost.scan cs).1.isEmpty with
      | true => exact ⟨r, cs, by simp [hread, hempty], h, by simp [ofKeyword?, mana?, hempty]⟩
      | false => exact ⟨_, _, by simp [hread, hempty], hend, by simp [ofKeyword?, mana?, hempty]⟩
    | rarity =>
      obtain rfl : k = .rarity := by cases k <;> first | rfl | cases hk
      cases hfound : rarityWords.findSome? fun w => afterWord? w.toList cs with
      | none =>
        exact ⟨r, cs, by simp [h.left?_eq, hfound], h, by simp [ofKeyword?, rarity?, hfound]⟩
      | some rest =>
        obtain ⟨w, -, hw⟩ := List.exists_of_findSome?_eq_some hfound
        have hend := h.moveBy_sub (afterWord?_suffix hw)
        cases hrest : atBoundary rest with
        | true =>
          refine ⟨_, rest, by simp [h.left?_eq, hfound, hend.left?_eq, hrest], hend,
            fun t rest' ht => ?_⟩
          simp only [ofKeyword?, rarity?, hfound, hrest] at ht
          obtain ⟨_, -, heq⟩ := Option.map_eq_some_iff.1 ht
          cases heq
          rfl
        | false =>
          exact ⟨_, cs, by simp [h.left?_eq, hfound, hend.left?_eq, hrest], hend.moveTo h.left?_eq,
            by simp [ofKeyword?, rarity?, hfound, hrest]⟩

private theorem At.name (h : r.At text cs properties) :
    ∃ last, r.name text = some ((Term.name cs).1, last) ∧
      last.At text (Term.name cs).2 properties := by
  have hrest : (Term.name cs).2 = (phrase cs).2 := by
    rw [Term.name, phrase]
    cases quotation cs <;> rfl
  obtain ⟨last, hlast, hend⟩ := h.toPhraseEnd
  refine ⟨last, ?_, hrest ▸ hend⟩
  rw [TextReader.name, h.left?_eq, hlast]
  rfl

/-- The reader reads the term that stands where it is and comes to the end of that term, also when it
has gone on with a keyword before and has come back. -/
theorem At.term (h : r.At text cs properties) (names : Dict Subset) :
    ∃ last, r.term text names = some ((Term.scan names cs).1, last) ∧
      last.At text (Term.scan names cs).2 properties := by
  have hback {r' : TextReader} {ds : List Char} (h' : r'.At text ds properties) :=
    (h'.moveTo h.left?_eq).name
  have hstart : r.At text ([] ++ cs) properties := h
  obtain ⟨after, hoperator, hafter⟩ := hstart.toOperator h
  rw [TextReader.term, hoperator, Term.scan, keywordTerm?]
  cases hkeyed : keyed? cs with
  | none =>
    rw [hkeyed] at hafter
    exact hafter.name
  | some keyed =>
    obtain ⟨keyword, op, rest⟩ := keyed
    replace hafter : after.At text rest properties := by simpa [hkeyed] using hafter
    cases hk : Keyword.ofWord? (lowered keyword) with
    | none => simpa [hk] using hback hafter
    | some k =>
      obtain ⟨last, ds, hlast, hend, hrest⟩ := hafter.toValueEnd names op k
      cases hvalue : ofKeyword? names op rest k with
      | none => simpa [hk, TextReader.value, hafter.left?_eq, hlast, hvalue] using hback hend
      | some read =>
        obtain ⟨t, rest'⟩ := read
        obtain rfl := hrest t rest' hvalue
        refine ⟨last, ?_, ?_⟩
        · simp [hk, TextReader.value, hafter.left?_eq, hlast, hvalue]
        · simpa only [hk, hvalue, Option.getD_some] using hend

end TextReader

end CardSearch
