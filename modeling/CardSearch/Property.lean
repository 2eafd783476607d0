/-!
# Properties of a card

The properties that a condition can read, in their canonical order. A set of properties is a
word with one bit for each, so two sets are equal when they have the same members; a family of
values by property has one slot for each. Among the rarities, special printings rank between rare and
mythic ones.
-/

namespace CardSearch

/-- A property of a card. Some are stored as they are, some are derived from a stored one. -/
inductive Property
  | colors | formats | identity | img | cost | cmc | landscape
  | name | nameSearch | nameInexact
  | oracle | oracleSearch | fullOracle | fullOracleSearch
  | rarity | releasedAt | reprint | set | sfurl
  | type | typeSearch
  deriving DecidableEq, Repr, Inhabited

namespace Property

def all : List Property :=
  [colors, formats, identity, img, cost, cmc, landscape, name, nameSearch, nameInexact,
   oracle, oracleSearch, fullOracle, fullOracleSearch, rarity, releasedAt, reprint, set, sfurl,
   type, typeSearch]

def index : Property → Fin 21
  | colors => 0 | formats => 1 | identity => 2 | img => 3 | cost => 4 | cmc => 5 | landscape => 6
  | name => 7 | nameSearch => 8 | nameInexact => 9
  | oracle => 10 | oracleSearch => 11 | fullOracle => 12 | fullOracleSearch => 13
  | rarity => 14 | releasedAt => 15 | reprint => 16 | set => 17 | sfurl => 18
  | type => 19 | typeSearch => 20

theorem index_injective {p q : Property} (h : p.index = q.index) : p = q := by
  cases p <;> cases q <;> first | rfl | exact absurd h (by decide)

/-- Every place in the canonical order is that of a property. -/
theorem exists_index (i : Fin 21) : ∃ p : Property, p.index = i :=
  ⟨all.get i, by revert i; decide⟩

theorem mem_all (p : Property) : p ∈ all := by cases p <;> decide

def code (p : Property) : UInt8 := UInt8.ofNat (p.index + 1)

def label : Property → String
  | colors => "colors" | formats => "formats" | identity => "identity" | img => "img"
  | cost => "cost" | cmc => "cmc" | landscape => "landscape"
  | name => "name" | nameSearch => "name_search" | nameInexact => "name_inexact"
  | oracle => "oracle" | oracleSearch => "oracle_search"
  | fullOracle => "full_oracle" | fullOracleSearch => "full_oracle_search"
  | rarity => "rarity" | releasedAt => "released_at" | reprint => "reprint" | set => "set"
  | sfurl => "sfurl" | type => "type" | typeSearch => "type_search"

def ofLabel? (s : String) : Option Property := all.find? (·.label == s)

def perVersion : List Property := [rarity, releasedAt, reprint, set]

def isPerVersion (p : Property) : Bool := p ∈ perVersion

/-- The stored property that holds the data of this one. Being a reprint follows from the number
of a version alone and is its own source. -/
def source : Property → Property
  | nameSearch | nameInexact => name
  | oracle | oracleSearch | fullOracleSearch => fullOracle
  | typeSearch => type
  | p => p

def isStored (p : Property) : Bool := p.source == p && p != reprint

end Property

structure PropertySet where
  bits : BitVec 21
  deriving DecidableEq, Repr

namespace PropertySet

def contains (s : PropertySet) (p : Property) : Bool := s.bits.getLsb p.index

instance : EmptyCollection PropertySet := ⟨⟨0⟩⟩

instance : Inhabited PropertySet := ⟨∅⟩

def single (p : Property) : PropertySet := ⟨BitVec.twoPow 21 p.index⟩

instance : Singleton Property PropertySet := ⟨single⟩

instance : Union PropertySet := ⟨fun s t => ⟨s.bits ||| t.bits⟩⟩

instance : Membership Property PropertySet := ⟨fun s p => s.contains p = true⟩

instance (p : Property) (s : PropertySet) : Decidable (p ∈ s) :=
  inferInstanceAs (Decidable (s.contains p = true))

def toList (s : PropertySet) : List Property := Property.all.filter s.contains

def ofList (ps : List Property) : PropertySet := ps.foldl (fun s p => s ∪ {p}) ∅

def unions (ss : List PropertySet) : PropertySet := ss.foldl (· ∪ ·) ∅

theorem mem_iff {p : Property} {s : PropertySet} : p ∈ s ↔ s.bits.getLsb p.index = true := Iff.rfl

@[simp] theorem not_mem_empty (p : Property) : ¬ p ∈ (∅ : PropertySet) := by
  cases p <;> decide

@[simp] theorem mem_union {p : Property} {s t : PropertySet} : p ∈ s ∪ t ↔ p ∈ s ∨ p ∈ t := by
  change (s.bits ||| t.bits).getLsb p.index = true ↔ _
  simp [mem_iff]

@[simp] theorem mem_singleton {p q : Property} : p ∈ ({q} : PropertySet) ↔ p = q := by
  cases p <;> cases q <;> decide

@[ext] theorem ext {s t : PropertySet} (h : ∀ p, p ∈ s ↔ p ∈ t) : s = t := by
  obtain ⟨s⟩ := s
  obtain ⟨t⟩ := t
  congr 1
  apply BitVec.eq_of_getLsbD_eq
  intro i hi
  obtain ⟨p, hp⟩ := Property.exists_index ⟨i, hi⟩
  have := Bool.eq_iff_iff.2 (h p)
  simpa [mem_iff, contains, hp, BitVec.getLsb_eq_getElem, BitVec.getLsbD_eq_getElem hi] using h p

@[simp] theorem mem_toList {p : Property} {s : PropertySet} : p ∈ s.toList ↔ p ∈ s := by
  simp only [toList, List.mem_filter, Property.mem_all, true_and]
  exact Iff.rfl

end PropertySet

/-- At most one value for each property. -/
structure PropertyMap (α : Type) where
  slots : Vector (Option α) 21

namespace PropertyMap

variable {α : Type}

def empty : PropertyMap α := ⟨Vector.replicate 21 none⟩

instance : EmptyCollection (PropertyMap α) := ⟨empty⟩

instance : Inhabited (PropertyMap α) := ⟨empty⟩

def get? (m : PropertyMap α) (p : Property) : Option α := m.slots[p.index]

def insert (m : PropertyMap α) (p : Property) (value : α) : PropertyMap α :=
  ⟨m.slots.set p.index (some value)⟩

def erase (m : PropertyMap α) (p : Property) : PropertyMap α := ⟨m.slots.set p.index none⟩

def keys (m : PropertyMap α) : List Property := Property.all.filter (fun p => (m.get? p).isSome)

@[simp] theorem get?_empty (p : Property) : (∅ : PropertyMap α).get? p = none := by
  change (Vector.replicate 21 none)[p.index] = none
  simp

theorem get?_insert (m : PropertyMap α) (p q : Property) (value : α) :
    (m.insert p value).get? q = if p = q then some value else m.get? q := by
  simp only [get?, insert, Fin.getElem_fin, Vector.getElem_set]
  by_cases h : p = q
  · simp [h]
  · have : ¬ (p.index : Nat) = q.index := fun hi => h (Property.index_injective (Fin.ext hi))
    simp [h, this]

theorem get?_erase (m : PropertyMap α) (p q : Property) :
    (m.erase p).get? q = if p = q then none else m.get? q := by
  simp only [get?, erase, Fin.getElem_fin, Vector.getElem_set]
  by_cases h : p = q
  · simp [h]
  · have : ¬ (p.index : Nat) = q.index := fun hi => h (Property.index_injective (Fin.ext hi))
    simp [h, this]

end PropertyMap

/-- How rare a printed version of a card is. -/
inductive Rarity
  | common | uncommon | rare | mythic | special | bonus
  deriving DecidableEq, Repr, Inhabited

namespace Rarity

def all : List Rarity := [common, uncommon, rare, mythic, special, bonus]

def rank : Rarity → Nat
  | common => 0 | uncommon => 1 | rare => 2 | special => 3 | mythic => 4 | bonus => 5

def label : Rarity → String
  | common => "common" | uncommon => "uncommon" | rare => "rare"
  | mythic => "mythic" | special => "special" | bonus => "bonus"

/-- The name of a rarity with a capital, as values are shown. -/
def title : Rarity → String
  | common => "Common" | uncommon => "Uncommon" | rare => "Rare"
  | mythic => "Mythic" | special => "Special" | bonus => "Bonus"

def ofLabel? (s : String) : Option Rarity := all.find? (·.label == s)

def ofWord? : String → Option Rarity
  | "c" => some common | "u" => some uncommon | "r" => some rare
  | "m" => some mythic | "s" => some special | "b" => some bonus
  | word => ofLabel? word

end Rarity

end CardSearch
