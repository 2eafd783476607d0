import CardSearch.Mana.Cost
import CardSearch.Property

/-!
# Conditions and queries

A condition is a tree whose leaves each read one property of a card. Comparing with a literal,
looking for a part of a text, asking for parity and lying in a range are the leaves; constants,
connectives and references to stored subsets make up the rest. A query is a condition together
with the properties that must be at hand to decide it.
-/

namespace CardSearch

/-- How a value is compared with a literal. -/
inductive CompareOp
  | eq | ne | lt | gt | le | ge
  deriving DecidableEq, Repr, Inhabited

namespace CompareOp

def all : List CompareOp := [eq, ne, lt, gt, le, ge]

def negate : CompareOp → CompareOp
  | eq => ne | ne => eq | lt => ge | le => gt | gt => le | ge => lt

def label : CompareOp → String
  | eq => "eq" | ne => "ne" | lt => "lt" | gt => "gt" | le => "le" | ge => "ge"

/-- Whether the comparison holds of a value that is ordered so against the literal. -/
def accepts : CompareOp → Ordering → Bool
  | eq, o => o == .eq
  | ne, o => o != .eq
  | lt, o => o == .lt
  | gt, o => o == .gt
  | le, o => o != .gt
  | ge, o => o != .lt

@[simp] theorem negate_negate (op : CompareOp) : op.negate.negate = op := by cases op <;> rfl

theorem accepts_negate (op : CompareOp) (o : Ordering) :
    op.negate.accepts o = !op.accepts o := by cases op <;> cases o <;> rfl

end CompareOp

/-- Whether a number is asked to be even or odd. -/
inductive Parity
  | even | odd
  deriving DecidableEq, Repr, Inhabited

namespace Parity

def all : List Parity := [even, odd]

def negate : Parity → Parity
  | even => odd | odd => even

def label : Parity → String
  | even => "even" | odd => "odd"

@[simp] theorem negate_negate (p : Parity) : p.negate.negate = p := by cases p <;> rfl

end Parity

/-- What a property is compared with. Dates are milliseconds since the start of 1970. -/
inductive Literal
  | bool (b : Bool)
  | int (n : Int32)
  | text (s : String)
  | date (millis : Int)
  | cost (cost : ManaCost)
  | rarity (rarity : Rarity)
  deriving DecidableEq, Repr

/-- A condition on one property. -/
inductive Leaf
  | compare (op : CompareOp) (property : Property) (value : Literal)
  | contains (property : Property) (part : String)
  | parity (parity : Parity) (property : Property)
  | range (property : Property) (first : Literal) (firstIncluded : Bool) (last : Literal)
      (lastIncluded : Bool)
  deriving DecidableEq, Repr

namespace Leaf

def property : Leaf → Property
  | compare _ p _ | contains p _ | parity _ p | range p _ _ _ _ => p

def kind : Leaf → String
  | compare op _ _ => op.label
  | contains _ _ => "substring"
  | parity p _ => p.label
  | range _ _ _ _ _ => "range"

end Leaf

/-- A condition on a card. A subset is named by its id and stands for whatever condition is
stored under that id when the condition is decided. -/
inductive Condition
  | const (holds : Bool)
  | not (condition : Condition)
  | any (conditions : List Condition)
  | all (conditions : List Condition)
  | leaf (leaf : Leaf)
  | subset (id : String)
  deriving Repr

namespace Condition

instance : Inhabited Condition := ⟨const true⟩

mutual

def same : Condition → Condition → Bool
  | const x, const y => x == y
  | not a, not b => same a b
  | any as, any bs => sameList as bs
  | all as, all bs => sameList as bs
  | leaf x, leaf y => x == y
  | subset x, subset y => x == y
  | _, _ => false

def sameList : List Condition → List Condition → Bool
  | [], [] => true
  | a :: as, b :: bs => same a b && sameList as bs
  | _, _ => false

end

mutual

theorem same_refl : (a : Condition) → same a a = true
  | const _ | leaf _ | subset _ => by simp [same]
  | not a => by simp [same, same_refl a]
  | any as | all as => by simp [same, sameList_refl as]

theorem sameList_refl : (as : List Condition) → sameList as as = true
  | [] => rfl
  | a :: as => by simp [sameList, same_refl a, sameList_refl as]

end

mutual

theorem eq_of_same : (a b : Condition) → same a b = true → a = b
  | const _, b, h => by cases b <;> simp_all [same]
  | leaf _, b, h => by cases b <;> simp_all [same]
  | subset _, b, h => by cases b <;> simp_all [same]
  | not a, b, h => by
    cases b <;> simp only [same, Bool.false_eq_true] at h
    rw [eq_of_same a _ h]
  | any as, b, h => by
    cases b <;> simp only [same, Bool.false_eq_true] at h
    rw [eq_of_sameList as _ h]
  | all as, b, h => by
    cases b <;> simp only [same, Bool.false_eq_true] at h
    rw [eq_of_sameList as _ h]

theorem eq_of_sameList : (as bs : List Condition) → sameList as bs = true → as = bs
  | [], bs, h => by cases bs <;> simp_all [sameList]
  | a :: as, bs, h => by
    cases bs with
    | nil => simp [sameList] at h
    | cons b bs =>
      simp only [sameList, Bool.and_eq_true] at h
      rw [eq_of_same a b h.1, eq_of_sameList as bs h.2]

end

theorem same_iff (a b : Condition) : same a b = true ↔ a = b :=
  ⟨eq_of_same a b, fun h => h ▸ same_refl a⟩

instance : DecidableEq Condition := fun a b => decidable_of_iff _ (same_iff a b)

def compare (op : CompareOp) (p : Property) (value : Literal) : Condition :=
  leaf (.compare op p value)

def contains (p : Property) (part : String) : Condition := leaf (.contains p part)

def kind : Condition → String
  | const true => "true"
  | const false => "false"
  | not _ => "not"
  | any _ => "or"
  | all _ => "and"
  | leaf l => l.kind
  | subset _ => "subset"

def property? : Condition → Option Property
  | leaf l => some l.property
  | _ => none

/-- Several conditions as one: none for an empty list, a single one as it is, more of them
joined. -/
def collapse (join : List Condition → Condition) : List Condition → Option Condition
  | [] => none
  | [c] => some c
  | cs => some (join cs)

end Condition

/-- A condition and the properties that it needs loaded. -/
structure Query where
  properties : PropertySet
  condition : Condition
  deriving DecidableEq, Repr

namespace Query

def all : Query := ⟨∅, .const true⟩

def none : Query := ⟨∅, .const false⟩

instance : Inhabited Query := ⟨all⟩

end Query

end CardSearch
