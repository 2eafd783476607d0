/-!
# Mana costs

The five colours stand in a wheel. A symbol that can be paid with either of two colours names
first the one from which the other lies one or two steps further round the wheel.

A cost counts symbols by their keys, in ascending order of the keys, so that costs are equal
exactly when they hold the same symbols equally often. Counts stop at the largest number of
32 bits. A cost includes another when every symbol of the other occurs in it at least as often. It
exceeds the other when moreover it has more of those symbols or symbols besides them; a cost of
zero generic mana is exceeded by every other cost that includes it.
-/

namespace CardSearch

/-- The five colours, in the order of the wheel. -/
inductive Color
  | white | blue | black | red | green
  deriving DecidableEq, Repr, Inhabited

namespace Color

def all : List Color := [white, blue, black, red, green]

def place : Color → Fin 5
  | white => 0 | blue => 1 | black => 2 | red => 3 | green => 4

def letter : Color → Char
  | white => 'W' | blue => 'U' | black => 'B' | red => 'R' | green => 'G'

/-- Two colours in the order in which a symbol names them. -/
def ordered (a b : Color) : Color × Color :=
  if b.place - a.place = 1 ∨ b.place - a.place = 2 then (a, b) else (b, a)

theorem ordered_comm (a b : Color) (h : a ≠ b) : ordered a b = ordered b a := by
  revert h; cases a <;> cases b <;> decide

end Color

/-- A mana symbol. `generic` stands for any amount written as a number, `chosen` for the amount
written as the letter X. -/
inductive ManaSymbol
  | generic
  | chosen
  | snow
  | colorless
  | colored (c : Color)
  | twoOr (c : Color)
  | colorlessOr (c : Color)
  | hybrid (a b : Color)
  | phyrexian (c : Color)
  | hybridPhyrexian (a b : Color)
  deriving DecidableEq, Repr

namespace ManaSymbol

def keyChars : ManaSymbol → List Char
  | generic => ['N']
  | chosen => ['X']
  | snow => ['S']
  | colorless => ['C']
  | colored c => [c.letter]
  | twoOr c => ['2', '/', c.letter]
  | colorlessOr c => ['C', '/', c.letter]
  | hybrid a b => [(a.ordered b).1.letter, '/', (a.ordered b).2.letter]
  | phyrexian c => [c.letter, '/', 'P']
  | hybridPhyrexian a b => [(a.ordered b).1.letter, '/', (a.ordered b).2.letter, '/', 'P']

def key (s : ManaSymbol) : String := String.ofList s.keyChars

end ManaSymbol

/-- The sum of two counts, or the largest count if that is less. -/
def addCapped (a b : UInt32) : UInt32 :=
  if a.toNat + b.toNat < UInt32.size then a + b else UInt32.ofNat (UInt32.size - 1)

theorem eq_zero_of_addCapped {a b : UInt32} (h : addCapped a b = 0) : b = 0 := by
  rw [addCapped] at h
  split at h
  · next hlt =>
    have hsum : a.toNat + b.toNat = 0 := by
      rw [← Nat.mod_eq_of_lt hlt, ← UInt32.toNat_add, h]
      rfl
    exact UInt32.toNat_inj.1 (Nat.eq_zero_of_add_eq_zero_left hsum)
  · cases h

/-- A mana cost: how often each symbol occurs. -/
structure ManaCost where
  counts : List (String × UInt32)
  ascending : counts.Pairwise (·.1 < ·.1)
  deriving DecidableEq, Repr

namespace ManaCost

def empty : ManaCost := ⟨[], .nil⟩

instance : EmptyCollection ManaCost := ⟨empty⟩

instance : Inhabited ManaCost := ⟨empty⟩

def addTo (key : String) (amount : UInt32) : List (String × UInt32) → List (String × UInt32)
  | [] => [(key, amount)]
  | e :: es =>
    if key < e.1 then (key, amount) :: e :: es
    else if key = e.1 then (key, addCapped e.2 amount) :: es
    else e :: addTo key amount es

theorem mem_addTo {key : String} {amount : UInt32} {es : List (String × UInt32)}
    {e : String × UInt32} (h : e ∈ addTo key amount es) :
    e ∈ es ∨ e.1 = key ∧ (e.2 = 0 → amount = 0) := by
  induction es with
  | nil =>
    obtain rfl := List.mem_singleton.1 h
    exact .inr ⟨rfl, id⟩
  | cons d es ih =>
    rw [addTo] at h
    split at h
    · rcases List.mem_cons.1 h with rfl | h
      · exact .inr ⟨rfl, id⟩
      · exact .inl h
    · split at h
      · rcases List.mem_cons.1 h with rfl | h
        · exact .inr ⟨rfl, eq_zero_of_addCapped⟩
        · exact .inl (List.mem_cons_of_mem d h)
      · rcases List.mem_cons.1 h with rfl | h
        · exact .inl List.mem_cons_self
        · exact (ih h).imp_left (List.mem_cons_of_mem d)

theorem addTo_ascending {key : String} {amount : UInt32} {es : List (String × UInt32)}
    (h : es.Pairwise (·.1 < ·.1)) : (addTo key amount es).Pairwise (·.1 < ·.1) := by
  induction es with
  | nil => simp [addTo]
  | cons e es ih =>
    have ⟨hhead, htail⟩ := List.pairwise_cons.1 h
    rw [addTo]
    split
    case isTrue hlt =>
      refine List.pairwise_cons.2 ⟨fun d hd => ?_, h⟩
      rcases List.mem_cons.1 hd with rfl | hd
      · exact hlt
      · exact String.lt_trans hlt (hhead d hd)
    case isFalse hlt =>
      split
      case isTrue heq =>
        subst heq
        exact List.pairwise_cons.2 ⟨hhead, htail⟩
      case isFalse hne =>
        refine List.pairwise_cons.2 ⟨fun d hd => ?_, ih htail⟩
        rcases mem_addTo hd with hd | ⟨heq, -⟩
        · exact hhead d hd
        · exact heq ▸ Std.lt_of_le_of_ne (String.not_lt.1 hlt) (Ne.symm hne)

def add (cost : ManaCost) (key : String) (amount : UInt32) : ManaCost :=
  ⟨addTo key amount cost.counts, addTo_ascending cost.ascending⟩

def ofList (entries : List (String × UInt32)) : ManaCost :=
  entries.foldl (fun cost e => cost.add e.1 e.2) ∅

/-- How often the symbol of a key occurs, if it does. -/
def count? (cost : ManaCost) (key : String) : Option UInt32 :=
  (cost.counts.find? (·.1 == key)).map (·.2)

/-- Whether the symbol of a key occurs, be it zero times. -/
def contains (cost : ManaCost) (key : String) : Bool := (cost.count? key).isSome

def symbolCount (cost : ManaCost) : Nat := cost.counts.length

def isEmpty (cost : ManaCost) : Bool := cost.counts.isEmpty

def braced (key : List Char) : List Char := '\x7b' :: key ++ ['\x7d']

/-- The characters that write one count: an amount of generic mana as one number, any other
symbol as often as it occurs. -/
def entryChars (e : String × UInt32) : List Char :=
  if e.1 = ManaSymbol.generic.key then braced (Nat.toDigits 10 e.2.toNat)
  else (List.replicate e.2.toNat (braced e.1.toList)).flatten

def text (cost : ManaCost) : String := String.ofList (cost.counts.flatMap entryChars)

def sameAs (a b : ManaCost) : Bool :=
  a.symbolCount == b.symbolCount && b.counts.all (fun e => a.count? e.1 == some e.2)

/-- Whether every symbol of `b` occurs in `a` at least as often. -/
def includes (a b : ManaCost) : Bool :=
  b.symbolCount ≤ a.symbolCount && b.counts.all (fun e => e.2 ≤ (a.count? e.1).getD 0)

/-- How much mana of the symbols of `b` the cost `a` holds. -/
def totalOver (a b : ManaCost) : Nat :=
  b.counts.foldl (fun n e => n + ((a.count? e.1).getD 0).toNat) 0

/-- The number of symbols of `a` against `b`: zero generic mana as the only symbol of `b` counts
as one that `a` has besides its own. -/
def symbolCountAgainst (a b : ManaCost) : Nat :=
  let generic := ManaSymbol.generic.key
  if b.count? generic = some 0 ∧ b.symbolCount = 1 ∧ ¬ a.contains generic then a.symbolCount + 1
  else a.symbolCount

def exceeds (a b : ManaCost) : Bool :=
  a.includes b &&
    (b.totalOver b < a.totalOver b || b.symbolCount < a.symbolCountAgainst b)

end ManaCost

end CardSearch
