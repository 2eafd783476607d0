import CardSearch.Condition
import CardSearch.Json.Basic
import CardSearch.Mana.Reading

/-!
# Queries as JSON

A condition is described as an object that names its type, a literal as one that names its kind.
Reading a description takes the members in any order; a cost may also be given as a text or as a
list of symbols with their counts.
-/

namespace CardSearch

/-- The description of a cost: how often each symbol occurs. -/
def ManaCost.describe (cost : ManaCost) : Json :=
  .object (cost.counts.map (fun e => (e.1, Json.ofNat e.2.toNat)))

def PropertySet.describe (ps : PropertySet) : Json := Json.ofTexts (ps.toList.map Property.label)

namespace Literal

def kind : Literal → String
  | bool _ => "bool" | int _ => "int" | text _ => "str" | date _ => "date"
  | cost _ => "cost" | rarity _ => "rarity"

def describeValue : Literal → Json
  | bool b => .bool b
  | int n => Json.ofInt n.toInt
  | text s => .text s
  | date millis => Json.ofInt millis
  | cost c => c.describe
  | rarity r => .text r.label

def describe (v : Literal) : Json :=
  Json.ofMembers [("kind", .text v.kind), ("value", v.describeValue)]

end Literal

def Leaf.describe : Leaf → Json
  | compare op p value =>
    Json.ofMembers [("type", .text "comparison"), ("op", .text op.label), ("prop", .text p.label),
      ("value", value.describe)]
  | contains p part =>
    Json.ofMembers [("type", .text "substring"), ("prop", .text p.label), ("value", .text part)]
  | parity which p =>
    Json.ofMembers [("type", .text "predicate"), ("op", .text which.label), ("prop", .text p.label)]
  | range p first firstIncluded last lastIncluded =>
    Json.ofMembers [("type", .text "range"), ("prop", .text p.label), ("start", first.describe),
      ("start_inc", .bool firstIncluded), ("end", last.describe), ("end_inc", .bool lastIncluded)]

namespace Condition

mutual

def describe : Condition → Json
  | const b => Json.ofMembers [("type", .text (if b then "true" else "false"))]
  | not c => Json.ofMembers [("type", .text "not"), ("condition", describe c)]
  | any cs => Json.ofMembers [("type", .text "or"), ("conditions", .list (describeList cs))]
  | all cs => Json.ofMembers [("type", .text "and"), ("conditions", .list (describeList cs))]
  | leaf l => l.describe
  | subset id => Json.ofMembers [("type", .text "subset"), ("id", .text id)]

def describeList : List Condition → List Json
  | [] => []
  | c :: cs => describe c :: describeList cs

end

end Condition

def Json.count? (v : Json) : Option UInt32 := v.nat?.map UInt32.ofNat

def ManaCost.ofDescription? : Json → Option ManaCost
  | .text s => some (ManaCost.read s)
  | .object members =>
    (members.mapM (fun (m : String × Json) => m.2.count?.map (fun n => (m.1, n)))).map
      ManaCost.ofList
  | v => (v.listOf? (Json.pairOf? Json.text? Json.count?)).map ManaCost.ofList

def Property.ofDescription? (v : Json) : Option Property := v.text?.bind Property.ofLabel?

def Rarity.ofDescription? (v : Json) : Option Rarity := v.text?.bind Rarity.ofLabel?

def Literal.ofDescription? (v : Json) : Option Literal := do
  let value ← v.member? "value"
  match ← v.field? "kind" Json.text? with
  | "bool" => value.bool?.map .bool
  | "int" => value.int?.map (.int ∘ Int32.ofInt)
  | "str" => value.text?.map .text
  | "date" => value.int?.map .date
  | "cost" => (ManaCost.ofDescription? value).map .cost
  | "rarity" => (Rarity.ofDescription? value).map .rarity
  | _ => none

def Leaf.ofDescription? (type : String) (v : Json) : Option Leaf := do
  let p ← v.field? "prop" Property.ofDescription?
  let op? {α : Type} (all : List α) (label : α → String) : Option α := do
    let name ← v.field? "op" Json.text?
    all.find? (label · == name)
  let literal? (name : String) : Option Literal := v.field? name Literal.ofDescription?
  match type with
  | "comparison" => return .compare (← op? CompareOp.all CompareOp.label) p (← literal? "value")
  | "substring" => return .contains p (← v.field? "value" Json.text?)
  | "predicate" => return .parity (← op? Parity.all Parity.label) p
  | "range" =>
    return .range p (← literal? "start") (← v.field? "start_inc" Json.bool?) (← literal? "end")
      (← v.field? "end_inc" Json.bool?)
  | _ => none

namespace Condition

def ofDescriptionAt? : Nat → Json → Option Condition
  | 0, _ => none
  | depth + 1, v => do
    match ← v.field? "type" Json.text? with
    | "true" => return const true
    | "false" => return const false
    | "not" => return not (← v.field? "condition" (ofDescriptionAt? depth))
    | "or" => return any (← v.field? "conditions" (Json.listOf? (ofDescriptionAt? depth)))
    | "and" => return all (← v.field? "conditions" (Json.listOf? (ofDescriptionAt? depth)))
    | "subset" => return subset (← v.field? "id" Json.text?)
    | type => (Leaf.ofDescription? type v).map leaf

mutual

def nesting : Json → Nat
  | .list items => nestingItems items + 1
  | .object members => nestingMembers members + 1
  | _ => 0

def nestingItems : List Json → Nat
  | [] => 0
  | v :: vs => max (nesting v) (nestingItems vs)

def nestingMembers : List (String × Json) → Nat
  | [] => 0
  | (_, v) :: ms => max (nesting v) (nestingMembers ms)

end

def ofDescription? (v : Json) : Option Condition := ofDescriptionAt? (nesting v + 1) v

end Condition

end CardSearch
