import CardSearch.Binary64
import CardSearch.Condition
import CardSearch.Text.Characters

/-!
# Values of a property

What a record holds for a property: nothing, one datum, or a list with one entry for each face or
each printed version.
-/

namespace CardSearch

/-- One scalar value. Dates are milliseconds since the start of 1970. -/
inductive Datum
  | bool (b : Bool)
  | number (x : Binary64)
  | text (s : String)
  | date (millis : Int)
  | cost (cost : ManaCost)
  | rarity (rarity : Rarity)
  deriving DecidableEq, Repr

/-- The value of a property. A face may have no cost. -/
inductive Values
  | missing
  | one (datum : Datum)
  | texts (values : List String)
  | costs (values : List (Option ManaCost))
  | rarities (values : List Rarity)
  | dates (values : List Int)
  deriving DecidableEq, Repr

namespace Values

instance : Inhabited Values := ⟨missing⟩

def isList : Values → Bool
  | missing | one _ => false
  | _ => true

def entries : Values → List (Option Datum)
  | missing => []
  | one d => [some d]
  | texts vs => vs.map (some ∘ .text)
  | costs vs => vs.map (Option.map .cost)
  | rarities vs => vs.map (some ∘ .rarity)
  | dates vs => vs.map (some ∘ .date)

def length : Values → Nat
  | missing => 0
  | one _ => 1
  | texts vs => vs.length
  | costs vs => vs.length
  | rarities vs => vs.length
  | dates vs => vs.length

def get? : Values → Nat → Option Datum
  | missing, _ => none
  | one d, i => if i = 0 then some d else none
  | texts vs, i => vs[i]?.map .text
  | costs vs, i => vs[i]?.join.map .cost
  | rarities vs, i => vs[i]?.map .rarity
  | dates vs, i => vs[i]?.map .date

theorem get?_eq (vs : Values) (i : Nat) : vs.get? i = vs.entries[i]?.join := by
  cases vs with
  | missing => simp [get?, entries]
  | one d => cases i <;> simp [get?, entries]
  | texts vs => cases h : vs[i]? <;> simp [get?, entries, h]
  | costs vs => cases h : vs[i]? <;> simp [get?, entries, h]
  | rarities vs => cases h : vs[i]? <;> simp [get?, entries, h]
  | dates vs => cases h : vs[i]? <;> simp [get?, entries, h]

def ofDatum? : Option Datum → Values
  | none => missing
  | some d => one d

end Values

/-- Numbers are shown without an exponent from a ten-thousandth up to below ten to the
sixteenth. -/
def shownNumber : NumberLayout := ⟨.up, -4, 15⟩

namespace ManaCost

def shownCount (e : String × UInt32) : String := Text.quoted e.1 ++ ": " ++ toString e.2.toNat

def shown (cost : ManaCost) : String :=
  "ManaCost(\x7b" ++ ", ".intercalate (cost.counts.map shownCount) ++ "\x7d)"

end ManaCost

def Datum.shown : Datum → String
  | bool b => "Bool(" ++ toString b ++ ")"
  | number x => "Number(" ++ shownNumber.text x ++ ")"
  | text s => "Text(" ++ Text.quoted s ++ ")"
  | date millis => "Date(" ++ toString millis ++ ")"
  | cost c => "Cost(" ++ c.shown ++ ")"
  | rarity r => "Rarity(" ++ r.title ++ ")"

def Literal.shown : Literal → String
  | bool b => "Bool(" ++ toString b ++ ")"
  | int n => "Int(" ++ toString n.toInt ++ ")"
  | text s => "Str(" ++ Text.quoted s ++ ")"
  | date millis => "Date(" ++ toString millis ++ ")"
  | cost c => "Cost(" ++ c.shown ++ ")"
  | rarity r => "Rarity(" ++ r.title ++ ")"

end CardSearch
