import CardSearch.Subset

/-!
# Normal form of a condition

Simplifying works from the leaves up. A negation is carried out on constants, comparisons and
parities and cancels another negation; nested junctions of one kind become one; a constant
decides its junction or drops out; a junction of one condition is that condition. References to
subsets stay, but the properties of the subset join those of the query.
-/

namespace CardSearch

/-- What simplifying a condition yields: the condition, the properties that were met on the way,
and the ids of subsets that are not stored, as they were met. -/
structure Simplified where
  condition : Condition
  properties : PropertySet := ∅
  missing : List String := []

namespace Simplified

def denial : Condition → Condition
  | .not c => c
  | .const b => .const !b
  | .leaf (.compare op p value) => .leaf (.compare op.negate p value)
  | .leaf (.parity parity p) => .leaf (.parity parity.negate p)
  | c => .not c

/-- Which junction is simplified: one of alternatives or one of requirements. -/
inductive Junction
  | any
  | all
  deriving DecidableEq, Repr

namespace Junction

/-- The constant that decides the junction. The other one drops out of it. -/
def absorbing : Junction → Bool
  | any => true
  | all => false

def join : Junction → List Condition → Condition
  | any => .any
  | all => .all

def parts : Junction → Condition → List Condition
  | any, .any cs => cs
  | all, .all cs => cs
  | _, .const _ => []
  | _, c => [c]

def close (j : Junction) (cs : List Condition) : Condition :=
  (Condition.collapse j.join cs).getD (.const !j.absorbing)

end Junction

mutual

def ofCondition (subsets : Dict Subset) : Condition → Simplified
  | .const b => { condition := .const b }
  | .leaf l => { condition := .leaf l, properties := {l.property} }
  | .subset id =>
    match subsets.get? id with
    | some subset => { condition := .subset id, properties := subset.query.properties }
    | none => { condition := .subset id, missing := [id] }
  | .not c =>
    let inner := ofCondition subsets c
    { inner with condition := denial inner.condition }
  | .any cs => ofJunction subsets .any [] cs
  | .all cs => ofJunction subsets .all [] cs

/-- Simplifies the conditions of a junction after those that contributed `done`. A condition that
decides the junction ends it, and those after it are not looked at. -/
def ofJunction (subsets : Dict Subset) (j : Junction) (done : List Condition) :
    List Condition → Simplified
  | [] => { condition := j.close done }
  | c :: cs =>
    let first := ofCondition subsets c
    if first.condition = .const j.absorbing then
      { first with condition := .const j.absorbing }
    else
      let rest := ofJunction subsets j (done ++ j.parts first.condition) cs
      { condition := rest.condition
        properties := first.properties ∪ rest.properties
        missing := first.missing ++ rest.missing }

end

end Simplified

namespace Query

def simplify (subsets : Dict Subset) (q : Query) : Query :=
  let simplified := Simplified.ofCondition subsets q.condition
  ⟨q.properties ∪ simplified.properties, simplified.condition⟩

/-- The ids of subsets that simplifying the query looks for in vain. -/
def missingSubsets (subsets : Dict Subset) (q : Query) : List String :=
  (Simplified.ofCondition subsets q.condition).missing

/-- The query that requires each of a list of queries. One alone stays as it is. -/
def conjunction (subsets : Dict Subset) : List Query → Query
  | [] => all
  | [q] => q
  | qs => simplify subsets ⟨PropertySet.unions (qs.map (·.properties)), .all (qs.map (·.condition))⟩

end Query

end CardSearch
