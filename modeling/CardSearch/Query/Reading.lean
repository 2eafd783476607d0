import CardSearch.Query.Term.Rest

/-!
# Reading a search text as a query

A search text is a sequence of terms, parentheses, minus signs and the word `or`. Blanks part
tokens and mean nothing else. Directly after a minus sign neither a blank nor a closing
parenthesis nor the word `or` is looked for: a term follows, which may be empty, or another minus
sign or an opening parenthesis.

Terms side by side must all hold, `or` separates alternatives, a minus sign denies the term or
group after it, and parentheses group. Reading never fails: a text whose parentheses do not
balance matches nothing, an empty one everything.

A pool restricts a search to a fixed part of the catalog. It is a search text of its own, joined
to the search of the user; it never refers to a subset.
-/

namespace CardSearch

/-- A token of a search text. -/
inductive Token
  | opening
  | closing
  | minus
  | or
  | term (t : Term)
  deriving DecidableEq, Repr

namespace Token

/-- Whether a text starts with the word `or`, in any case, and a word ends after it. -/
def startsWithOr : List Char → Bool
  | o :: r :: rest => o.toLower == 'o' && r.toLower == 'r' && Term.atBoundary rest
  | _ => false

/-- The tokens of a text; `operand` says that it stands directly after a minus sign. -/
def scanAll (names : Dict Subset) (operand : Bool) : List Char → List Token
  | [] => if operand then [term (Term.scan names []).1] else []
  | c :: cs =>
    if c == '(' then opening :: scanAll names false cs
    else if c == '-' then minus :: scanAll names true cs
    else if ho : operand then
      let scanned := Term.scan names (c :: cs)
      have := (Term.scan_suffix names (c :: cs)).length_le
      term scanned.1 :: scanAll names false scanned.2
    else if c == ')' then closing :: scanAll names false cs
    else if hc : Term.endsWord c then scanAll names false cs
    else if startsWithOr (c :: cs) then or :: scanAll names false (cs.drop 1)
    else
      let scanned := Term.scan names (c :: cs)
      have hc' : Term.endsWord c = false := by simpa using hc
      have := @Term.scan_length_lt names c cs hc'
      term scanned.1 :: scanAll names false scanned.2
termination_by cs => 2 * cs.length + operand.toNat
decreasing_by
  all_goals first
    | (simp only [ho, Bool.toNat_true, Bool.toNat_false, List.length_cons] at *; omega)
    | (simp only [Bool.toNat_true, Bool.toNat_false, List.length_cons, List.length_drop] at *; omega)

end Token

/-- A group that is still open: the number of minus signs before it, the alternatives that are
complete and the conditions of the last one, latest first. -/
structure OpenGroup where
  negations : Nat := 0
  alternatives : List Condition := []
  conjuncts : List Condition := []

namespace OpenGroup

/-- A condition under a number of minus signs. -/
def negate (n : Nat) (c : Condition) : Condition := n.repeat .not c

def push (g : OpenGroup) (c : Condition) : OpenGroup := { g with conjuncts := c :: g.conjuncts }

/-- The group after the last alternative is complete; an empty one is forgotten. -/
def endAlternative (g : OpenGroup) : OpenGroup :=
  match Condition.collapse .all g.conjuncts.reverse with
  | none => g
  | some c => { g with alternatives := c :: g.alternatives, conjuncts := [] }

/-- The condition of a complete group, unless it is empty. -/
def condition? (g : OpenGroup) : Option Condition :=
  Condition.collapse .any g.endAlternative.alternatives.reverse

end OpenGroup

/-- What has been read of a search text: the properties so far, the minus signs that wait for a
term, the innermost open group and the groups around it. -/
structure QueryReader where
  properties : PropertySet := ∅
  negations : Nat := 0
  group : OpenGroup := {}
  outer : List OpenGroup := []

namespace QueryReader

def push (r : QueryReader) (c : Condition) : QueryReader :=
  { r with negations := 0, group := r.group.push (OpenGroup.negate r.negations c) }

def run (r : QueryReader) : List Token → Query
  | [] =>
    match r.outer with
    | [] => ⟨r.properties, r.group.condition?.getD (.const true)⟩
    | _ :: _ => ⟨r.properties, .const false⟩
  | .term t :: tokens =>
    run ({ r with properties := r.properties ∪ t.properties }.push t.condition) tokens
  | .minus :: tokens => run { r with negations := r.negations + 1 } tokens
  | .or :: tokens => run { r with group := r.group.endAlternative } tokens
  | .opening :: tokens =>
    run { r with
      negations := 0
      group := { negations := r.negations }
      outer := r.group :: r.outer } tokens
  | .closing :: tokens =>
    match r.outer with
    | [] => ⟨r.properties, .const false⟩
    | g :: outer =>
      match r.group.condition? with
      | none => run { r with negations := 0, group := g, outer } tokens
      | some c =>
        run ({ r with negations := r.group.negations, group := g, outer }.push c) tokens

end QueryReader

def Query.read (names : Dict Subset) (text : String) : Query :=
  QueryReader.run {} (Token.scanAll names false text.toList)

/-- A fixed part of the catalog. The old frame ends in July 2003, the modern one in July 2014. -/
inductive Pool
  | all
  | oldCommons
  | oldCreatures
  | oldStaples
  | oldRareCreatures
  | modernCommons
  | modernCreatures
  deriving DecidableEq, Repr, Inhabited

namespace Pool

def list : List Pool :=
  [all, oldCommons, oldCreatures, oldStaples, oldRareCreatures, modernCommons, modernCreatures]

def label : Pool → String
  | all => "all"
  | oldCommons => "pmp"
  | oldCreatures => "pmpc"
  | oldStaples => "pmpst"
  | oldRareCreatures => "pmpstc"
  | modernCommons => "mp"
  | modernCreatures => "mpc"

def ofLabel? (s : String) : Option Pool := list.find? (·.label == s)

def text : Pool → String
  | all => ""
  | oldCommons => "date<2003-07-29 rarity:common"
  | oldCreatures => "date<2003-07-29 rarity:uncommon type:creature"
  | oldStaples =>
    "date<2003-07-29 rarity<=uncommon -\"Library of Alexandria\" -\"Strip Mine\"" ++
      " -\"Wasteland\" -\"Maze of Ith\" -\"Sol Ring\""
  | oldRareCreatures => "date<2003-07-29 rarity:rare type:creature"
  | modernCommons => "date>=2003-07-29 date<2014-07-18 rarity:common -\"Rhystic Study\""
  | modernCreatures => "date>=2003-07-29 date<2014-07-18 rarity:uncommon type:creature"

def query (pool : Pool) : Query := Query.read {} pool.text

end Pool

end CardSearch
