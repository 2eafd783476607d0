import CardSearch.Matching

/-!
# Leaves and their denials

A negation is carried out on a comparison or a parity by turning it into its opposite. That a
value differs from a literal is the exact opposite of being equal to it, on single data and on
lists, missing values included. Other opposites need not be: of a list with several entries both
a comparison and its opposite can hold.
-/

namespace CardSearch

namespace Leaf

/-- The leaf that a negation makes of this one, if it is carried out on it. -/
def denied? : Leaf → Option Leaf
  | compare op p value => some (compare op.negate p value)
  | parity which p => some (parity which.negate p)
  | _ => none

def isExclusion : Leaf → Bool
  | compare .ne _ _ | compare .ge _ _ | compare .gt _ _ | parity .odd _ => true
  | _ => false

theorem denied?_symm {l l' : Leaf} (h : l.denied? = some l') : l'.denied? = some l := by
  cases l <;> simp only [denied?, Option.some_inj, reduceCtorEq] at h <;> subst h <;> simp [denied?]

theorem property_of_denied? {l l' : Leaf} (h : l.denied? = some l') : l'.property = l.property := by
  cases l <;> simp only [denied?, Option.some_inj, reduceCtorEq] at h <;> subst h <;> rfl

theorem isExclusion_of_denied? {l l' : Leaf} (h : l.denied? = some l') :
    l'.isExclusion = !l.isExclusion := by
  cases l with
  | compare op p value => cases op <;> cases h <;> rfl
  | parity which p => cases which <;> cases h <;> rfl
  | contains p part => cases h
  | range p first firstIncluded last lastIncluded => cases h

/-- A comparison that is no equality, or a parity: a value may satisfy both such a leaf and its
denial, or neither. -/
def isOrdering : Leaf → Bool
  | compare .eq _ _ | compare .ne _ _ => false
  | compare _ _ _ | parity _ _ => true
  | _ => false

theorem decideEntries_opposite {yes no : Datum → Except EvalCause Bool}
    (h : ∀ d b, no d = .ok b ↔ yes d = .ok !b) (ds : List (Option Datum)) (b : Bool) :
    decideEntries false no ds = .ok b ↔ decideEntries true yes ds = .ok !b := by
  induction ds with
  | nil => simp [decideEntries]
  | cons d? ds ih =>
    cases d? with
    | none => simpa [decideEntries] using ih
    | some d =>
      simp only [decideEntries]
      cases hyes : yes d with
      | ok answer =>
        have hno : no d = .ok !answer := (h d _).2 (by simp [hyes])
        cases answer <;> simp [hno, ih]
      | error e =>
        cases hno : no d with
        | ok answer => simp [(h d answer).1 hno] at hyes
        | error e => simp

private theorem decide_opposite {yes no : Datum → Except EvalCause Bool}
    (h : ∀ d b, no d = .ok b ↔ yes d = .ok !b) (vs : Values) (b : Bool) :
    vs.decide false no = .ok b ↔ vs.decide true yes = .ok !b := by
  cases vs with
  | one d => exact h d b
  | missing | texts _ | costs _ | rarities _ | dates _ => exact decideEntries_opposite h _ b

/-- A comparison by order and its opposite have opposite answers. -/
theorem accepts_order_negate (op : CompareOp) (d : Datum) (value : Literal) (b : Bool) :
    op.negate.accepts <$> d.order op.negate.label value = .ok b ↔
      op.accepts <$> d.order op.label value = .ok !b := by
  unfold Datum.order
  cases d.order? value with
  | none => simp [Functor.map, Except.map]
  | some o =>
    simp only [Functor.map, Except.map, Except.ok.injEq, CompareOp.accepts_negate]
    cases op.accepts o <;> cases b <;> simp

/-- On one datum a comparison and its opposite have opposite answers, unless two costs are compared
by which one is the greater: of two costs neither may include the other. -/
theorem compareDatum_negate {op : CompareOp} {value : Literal}
    (h : op = .eq ∨ ∀ cost, value ≠ .cost cost) (p : Property) (d : Datum) (b : Bool) :
    compareDatum op.negate p value d = .ok b ↔ compareDatum op p value d = .ok !b := by
  cases d with
  | cost cost =>
    simp only [compareDatum]
    split
    · cases value with
      | cost other =>
        obtain rfl : op = .eq := h.resolve_right fun hvalue => hvalue other rfl
        simp only [CompareOp.negate, compareCost, CompareOp.acceptsCost, Except.ok.injEq]
        cases cost.sameAs other <;> cases b <;> simp
      | int n =>
        simp only [compareCost]
        split
        · simp
        · simp only [CompareOp.accepts_negate, Except.ok.injEq]
          cases op.accepts (Ord.compare (cost.symbolCount : Int) n.toInt) <;> cases b <;> simp
      | bool _ | text _ | date _ | rarity _ => simp [compareCost]
    · exact accepts_order_negate ..
  | bool _ | number _ | text _ | date _ | rarity _ => exact accepts_order_negate ..

/-- A value differs from a literal exactly where it is not equal to it. -/
theorem matchesValues_ne (p : Property) (value : Literal) (vs : Values) (b : Bool) :
    (compare .ne p value).matchesValues vs = .ok b ↔
      (compare .eq p value).matchesValues vs = .ok !b :=
  decide_opposite (compareDatum_negate (.inl rfl) p) vs b

theorem opposite_of_equality {l l' : Leaf} (h : l.denied? = some l') (hl : l.isOrdering = false)
    {vs : Values} {b b' : Bool} (hb : l.matchesValues vs = .ok b)
    (hb' : l'.matchesValues vs = .ok b') : b' = !b := by
  cases l with
  | compare op p value =>
    cases op <;> cases h <;> simp only [isOrdering, Bool.true_eq_false] at hl
    · have := (matchesValues_ne p value vs b').1 hb'
      simp_all
    · have := (matchesValues_ne p value vs b).1 hb
      simp_all [CompareOp.negate]
  | parity which p => simp [isOrdering] at hl
  | contains p part => cases h
  | range p first firstIncluded last lastIncluded => cases h

end Leaf

end CardSearch
