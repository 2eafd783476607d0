import CardSearch.Mana.Cost
import CardSearch.Text.Search
import CardSearch.Values
import CardSearch.VersionSet.Basic

/-!
# Whether a value satisfies a condition

A leaf is tested on one datum, or on a list of them: a list satisfies it when one of its entries
does, except that it differs from a literal only when none of its entries equals it. Testing a
datum of another kind than the condition asks for is an error.
-/

namespace CardSearch

/-- Why a query cannot be evaluated. -/
inductive EvalCause
  /-- The condition does not apply to the datum. -/
  | datum (condition : String) (datum : Datum)
  /-- The condition does not apply to the literal that it holds. -/
  | literal (condition : String) (value : Literal)
  /-- The datum and the literal cannot be ordered. -/
  | pair (condition : String) (datum : Datum) (value : Literal)
  /-- No property is loaded, so the number of records is not known. -/
  | lengthUnknown
  /-- An operation on version sets failed. -/
  | set (error : SetError)
  deriving DecidableEq, Repr

/-- Why a query cannot be evaluated, and the record at which that came up, if it was one. -/
structure EvalError where
  cause : EvalCause
  record : Option String := none
  deriving DecidableEq, Repr

namespace EvalCause

def code : EvalCause → String
  | datum _ _ | literal _ _ | pair _ _ _ => "CQ_EVAL_TYPE_MISMATCH"
  | lengthUnknown => "CQ_EVAL_LENGTH_UNKNOWN"
  | set _ => "CQ_EVAL_SET_FAILURE"

def mismatch (condition shown : String) : String :=
  "Condition " ++ condition ++ " can't be applied to " ++ shown ++ "."

/-- What went wrong, as a sentence. A datum and a literal are shown together as a quoted text. -/
def reason : EvalCause → String
  | datum condition d => mismatch condition d.shown
  | literal condition v => mismatch condition v.shown
  | pair condition d v => mismatch condition (Text.quoted (d.shown ++ " and " ++ v.shown))
  | lengthUnknown => "Catalog length unknown, no property loaded."
  | set e => e.message

end EvalCause

namespace EvalError

def code (e : EvalError) : String := e.cause.code

def message (e : EvalError) : String :=
  let place := match e.record with
    | none => ""
    | some record => "Couldn't evaluate query with \"" ++ record ++ "\": "
  "[ERROR] " ++ e.code ++ ": " ++ place ++ e.cause.reason

end EvalError

/-- How a datum stands to a literal of its kind. What is no number counts as equal to any. -/
def Datum.order? : Datum → Literal → Option Ordering
  | .number x, .int n => some ((x.compareInt? n.toInt).getD .eq)
  | .date d, .date v => some (compare d v)
  | .rarity r, .rarity v => some (compare r.rank v.rank)
  | .text t, .text v => some (compare t v)
  | .bool b, .bool v => some (compare b.toNat v.toNat)
  | _, _ => none

def Datum.order (condition : String) (d : Datum) (value : Literal) :
    Except EvalCause Ordering :=
  match d.order? value with
  | some o => .ok o
  | none => .error (.pair condition d value)

def CompareOp.acceptsCost (op : CompareOp) (cost other : ManaCost) : Bool :=
  match op with
  | eq => cost.sameAs other
  | ne => !cost.sameAs other
  | gt => cost.exceeds other
  | lt => other.exceeds cost
  | ge => cost.includes other
  | le => other.includes cost

namespace Leaf

def compareCost (op : CompareOp) (p : Property) (cost : ManaCost) :
    Literal → Except EvalCause Bool
  | .cost other => .ok (op.acceptsCost cost other)
  | .int n =>
    if p = .cost then .error (.literal op.label (.int n))
    else .ok (op.accepts (Ord.compare (cost.symbolCount : Int) n.toInt))
  | value => .error (.literal op.label value)

def compareDatum (op : CompareOp) (p : Property) (value : Literal) :
    Datum → Except EvalCause Bool
  | .cost cost =>
    if p ∈ [.colors, .cost, .identity] then compareCost op p cost value
    else op.accepts <$> Datum.order op.label (.cost cost) value
  | d => op.accepts <$> d.order op.label value

/-- Whether a datum lies between two literals. The first one is looked at first. -/
def between (first : Literal) (firstIncluded : Bool) (last : Literal) (lastIncluded : Bool)
    (d : Datum) : Except EvalCause Bool := do
  let o ← d.order "range" first
  if o = .lt || (o = .eq && !firstIncluded) then return false
  let o ← d.order "range" last
  return o = .lt || (o = .eq && lastIncluded)

def matchesDatum : Leaf → Datum → Except EvalCause Bool
  | .parity .even _, .number x => .ok x.isEven
  | .parity .odd _, .number x => .ok !x.isEven
  | .parity which _, d => .error (.datum which.label d)
  | .contains _ part, .text s => .ok (Text.contains part.toList s.toList)
  | .contains _ _, d => .error (.datum "substring" d)
  | .range _ first firstIncluded last lastIncluded, d =>
    between first firstIncluded last lastIncluded d
  | .compare op p value, d => compareDatum op p value d

end Leaf

/-- Whether some entry gives the answer that decides. Entries without a datum are passed over, and
those after the deciding one are not looked at. -/
def decideEntries (deciding : Bool) (test : Datum → Except EvalCause Bool) :
    List (Option Datum) → Except EvalCause Bool
  | [] => .ok !deciding
  | none :: ds => decideEntries deciding test ds
  | some d :: ds =>
    match test d with
    | .error e => .error e
    | .ok b => if b = deciding then .ok deciding else decideEntries deciding test ds

/-- Whether a value satisfies a test: a single datum by itself, a list by an entry that gives the
deciding answer. -/
def Values.decide (deciding : Bool) (test : Datum → Except EvalCause Bool) :
    Values → Except EvalCause Bool
  | .one d => test d
  | vs => decideEntries deciding test vs.entries

namespace Leaf

def deciding : Leaf → Bool
  | .compare .ne _ _ => false
  | _ => true

def matchesValues (leaf : Leaf) (vs : Values) : Except EvalCause Bool :=
  vs.decide leaf.deciding leaf.matchesDatum

end Leaf

namespace Condition

def matchesDatum : Condition → Datum → Except EvalCause Bool
  | leaf l, d => l.matchesDatum d
  | c, d => .error (.datum c.kind d)

def matchesValues : Condition → Values → Except EvalCause Bool
  | leaf l, vs => l.matchesValues vs
  | c, vs => vs.decide true c.matchesDatum

end Condition

end CardSearch
